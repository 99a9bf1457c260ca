/-
  Flowscript.Template.Library

  The templates of generated files.
-/
import Flowscript.Template.Basic

namespace Flowscript.Template

/-- The main module: imports, declarations, the main function and the entry point. -/
def mainFile : List Part := [
  .when (.holds (.var "comments")) [
      .text "/**\n * ",
      .put (.var "description"),
      .text "\n * Generated by flowgen\n */\n\n"] [],
  .put (.var "imports"),
  .text "\n\n",
  .each "declaration" (.var "declarations") [
      .put (.var "declaration"),
      .text "\n\n"],
  .text "function toText(value: unknown): string \x7b\n",
  .text "  if (typeof value === 'string') \x7b\n    return value;\n  \x7d\n",
  .text "  if (value && typeof value === 'object') \x7b\n",
  .text "    const record = value as Record<string, unknown>;\n",
  .text "    for (const key of ['text', 'response', 'output']) \x7b\n",
  .text "      if (typeof record[key] === 'string') \x7b\n",
  .text "        return record[key] as string;\n      \x7d\n    \x7d\n",
  .text "    return JSON.stringify(value);\n  \x7d\n",
  .text "  return value === undefined ? '' : String(value);\n\x7d\n\n",
  .put (.var "main_function"),
  .text "\n\n",
  .when (.holds (.var "comments")) [
      .text "// CLI entry point\n"] [],
  .when (.equals (.var "module_format") "esm") [
      .text "if (import.meta.url === `file://$\x7bprocess.argv[1]\x7d`) \x7b\n"] [
      .text "if (require.main === module) \x7b\n"],
  .text "  const input = process.argv[2] || 'Hello, world!';\n  main(input)\n",
  .text "    .then((output) => \x7b\n      console.log(output);\n    \x7d)\n",
  .text "    .catch((error) => \x7b\n      console.error('Error:', error);\n",
  .text "      process.exit(1);\n    \x7d);\n\x7d\n",
  .each "export" (.var "exports") [
      .text "\n",
      .put (.var "export"),
      .text "\n"]]

/-- The main function, with or without tracing. -/
def mainFunction : List Part := [
  .when (.holds (.var "comments")) [
      .text "/**\n * Main function for ",
      .put (.var "graph_name"),
      .text "\n */\n"] [],
  .text "export async function main(input: string, options: Record<string, unknown> = \x7b\x7d): Promise<string> \x7b\n",
  .when (.holds (.var "langfuse")) [
      .text "  const trace = langfuse.trace(\x7b\n    name: ",
      .put (.filter (.var "graph_name") .quote),
      .text ",\n    input: \x7b text: input, options \x7d,\n  \x7d);\n"] [],
  .text "  let result: unknown = undefined;\n  try \x7b\n",
  .each "block" (.var "initializations") [
      .text "    ",
      .put (.var "block"),
      .text "\n"],
  .each "block" (.var "executions") [
      .text "    ",
      .put (.var "block"),
      .text "\n"],
  .text "  \x7d catch (error) \x7b\n",
  .text "    console.error('Error in main function:', error);\n",
  .when (.holds (.var "langfuse")) [
      .text "    trace.update(\x7b output: \x7b error: String(error) \x7d \x7d);\n",
      .text "    await langfuse.flushAsync();\n"] [],
  .text "    throw error;\n  \x7d\n  const output = toText(result);\n",
  .when (.holds (.var "langfuse")) [
      .text "  trace.update(\x7b output: \x7b text: output \x7d \x7d);\n",
      .text "  await langfuse.flushAsync();\n"] [],
  .text "  return output;\n\x7d\n"]

/-- The interfaces of a program. -/
def typesFile : List Part := [
  .when (.holds (.var "comments")) [
      .text "/**\n * Type definitions for ",
      .put (.var "project_name"),
      .text "\n * Generated by flowgen\n */\n\n"] [],
  .each "interface" (.var "interfaces") [
      .text "export interface ",
      .put (.filter (.field (.var "interface") "name") .pascalCase),
      .text " \x7b\n",
      .each "field" (.field (.var "interface") "fields") [
          .text "  ",
          .put (.field (.var "field") "name"),
          .put (.choose (.field (.var "field") "optional") "?" ""),
          .text ": ",
          .put (.field (.var "field") "type"),
          .text ";\n"],
      .text "\x7d\n\n"]]

/-- The configuration of a program. -/
def configFile : List Part := [
  .when (.holds (.var "comments")) [
      .text "/**\n * Configuration for ",
      .put (.var "project_name"),
      .text "\n * Generated by flowgen\n */\n\n"] [],
  .text "import type \x7b AppConfig \x7d from '",
  .put (.var "types_import"),
  .text "';\n\nexport const config: AppConfig = ",
  .put (.filter (.var "config") .object),
  .text ";\n",
  .when (.holds (.var "langfuse")) [
      .text "\nexport const langfuseConfig = \x7b\n",
      .text "  publicKey: process.env.LANGFUSE_PUBLIC_KEY,\n",
      .text "  secretKey: process.env.LANGFUSE_SECRET_KEY,\n",
      .text "  baseUrl: process.env.LANGFUSE_BASE_URL || 'https://cloud.langfuse.com',\n",
      .text "  enabled: process.env.LANGFUSE_ENABLED !== 'false',\n\x7d;\n"] [],
  .text "\nexport const environment = \x7b\n",
  .text "  nodeEnv: process.env.NODE_ENV || 'development',\n",
  .text "  logLevel: process.env.LOG_LEVEL || 'info',\n",
  .eachEntry "key" "value" (.var "environment") [
      .text "  ",
      .put (.filter (.var "key") .camelCase),
      .text ": process.env.",
      .put (.filter (.var "key") .envName),
      .text " || ",
      .put (.filter (.var "value") .quote),
      .text ",\n"],
  .text "\x7d;\n"]

/-- A sample of the environment file. -/
def envFile : List Part := [
  .each "variable" (.var "variables") [
      .text "# ",
      .put (.field (.var "variable") "description"),
      .put (.choose (.field (.var "variable") "required") " (required)" ""),
      .text "\n",
      .put (.field (.var "variable") "name"),
      .text "=",
      .put (.field (.var "variable") "example"),
      .text "\n",
      .when .notLast [
          .text "\n"] []]]

/-- Tests of the main function. -/
def mainTest : List Part := [
  .when (.holds (.var "comments")) [
      .text "/**\n * Tests for ",
      .put (.var "project_name"),
      .text "\n * Generated by flowgen\n */\n\n"] [],
  .text "import \x7b main \x7d from '",
  .put (.var "index_import"),
  .text "';\n\ndescribe(",
  .put (.filter (.var "graph_name") .quote),
  .text ", () => \x7b\n  beforeEach(() => \x7b\n    process.env.NODE_ENV = 'test';\n",
  .when (.holds (.var "langfuse")) [
      .text "    process.env.LANGFUSE_ENABLED = 'false';\n"] [],
  .text "  \x7d);\n\n  test('exports a main function', () => \x7b\n",
  .text "    expect(typeof main).toBe('function');\n  \x7d);\n",
  .when (.holds (.var "has_execution")) [
      .text "\n  test('processes basic input', async () => \x7b\n",
      .text "    const result = await main('test input');\n",
      .text "    expect(typeof result).toBe('string');\n  \x7d);\n\n",
      .text "  test('handles options', async () => \x7b\n",
      .text "    const result = await main('test input', \x7b temperature: 0.5 \x7d);\n",
      .text "    expect(typeof result).toBe('string');\n  \x7d);\n"] [],
  .text "\x7d);\n"]

/-- The description of a program for its readers. -/
def readme : List Part := [
  .text "# ",
  .put (.var "project_name"),
  .text "\n\n",
  .put (.var "description"),
  .text "\n\nGenerated by flowgen from a ",
  .put (.filter (.var "nodes") .length),
  .text "-node workflow (",
  .put (.var "complexity"),
  .text ").\n\n## Setup\n\n```bash\nnpm install\ncp .env.example .env\n```\n\n## Usage\n",
  .text "\n```bash\nnpm run dev -- \"Hello, world!\"\nnpm run build && npm start\n```\n",
  .when (.holds (.var "nodes")) [
      .text "\n## Nodes\n\n| Node | Type | Category |\n|---|---|---|\n",
      .each "node" (.var "nodes") [
          .text "| ",
          .put (.field (.var "node") "display_name"),
          .text " | `",
          .put (.field (.var "node") "type"),
          .text "` | ",
          .put (.orElse (.field (.var "node") "category") "-"),
          .text " |\n"]] [],
  .when (.holds (.var "variables")) [
      .text "\n## Environment\n\n",
      .each "variable" (.var "variables") [
          .text "- `",
          .put (.field (.var "variable") "name"),
          .text "`: ",
          .put (.field (.var "variable") "description"),
          .text "\n"]] [],
  .when (.holds (.var "warnings")) [
      .text "\n## Conversion warnings\n\n",
      .each "warning" (.var "warnings") [
          .text "- ",
          .put (.var "warning"),
          .text "\n"]] []]

/-- The templates by name. -/
def library : List (String × List Part) := [
  ("main_file", mainFile),
  ("main_function", mainFunction),
  ("types_file", typesFile),
  ("config_file", configFile),
  ("env_file", envFile),
  ("main_test", mainTest),
  ("readme", readme)
]

/-- The names of the templates, sorted. -/
def names : List String := Text.sort (library.map (·.1))

/-- How templates are rendered: the quote of literals, and whether comments are written. -/
structure Renderer where
  quote : Char := '\''
  comments : Bool := true
deriving DecidableEq, Repr, Inhabited

/-- Renders a template by name with the given values. -/
def Renderer.render (r : Renderer) (name : String) (values : List (String × Value)) :
    Except Fault String :=
  match library.lookup name with
  | none => .error (.refused (.unknownTemplate name))
  | some parts =>
    let scope : Scope := { vars := values ++ [("comments", .bool r.comments)], quote := r.quote }
    match renderParts scope parts with
    | .ok text => .ok (String.ofList text)
    | .error (.missing m) => .error (.refused (.renderFailed name m.message))
    | .error (.unfit f) => .error f

end Flowscript.Template
