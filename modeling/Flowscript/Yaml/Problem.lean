/-
  Flowscript.Yaml.Problem

  Why a text is no YAML document.
-/
import Flowscript.Value.Display

namespace Flowscript.Yaml

/-- What is wrong with a text. -/
inductive Problem where
  | notAllowed (c : Char)
  | cannotStart (c : Char)
  | keyWithoutColon
  | misplaced (what : String)
  | badDirective
  | badAnchor
  | badTag
  | badHeader
  | badEscape
  | unclosedQuote
  | separatorInQuote
  | unexpected
  | undefinedAlias (name : String)
  | repeatedAnchor (name : String)
  | undefinedHandle (handle : String)
  | severalDocuments
  | unknownTag (tag : String)
  | wrongShape (tag : String)
  | badMerge
  | unhashableKey
  | badBinary
  | codeTooLarge
  | badSwitch (text : String)
  | badNumber (text : String)
  | emptyNumber
  | badTime (text : String)
  | impossibleTime (text : String)
  | timeInMapping
  | endlessScalar
  | tooDeep
deriving DecidableEq, Repr, Inhabited

namespace Problem

def message : Problem → String
  | .notAllowed c => "character U+" ++ String.ofList (Text.hex 4 c.toNat) ++ " is not allowed"
  | .cannotStart c => "character '" ++ String.singleton c ++ "' cannot start any token"
  | .keyWithoutColon => "could not find ':' after a key"
  | .misplaced what => what ++ " is not allowed here"
  | .badDirective => "malformed directive"
  | .badAnchor => "malformed anchor or alias"
  | .badTag => "malformed tag"
  | .badHeader => "malformed header of a block scalar"
  | .badEscape => "unknown escape in a quoted scalar"
  | .unclosedQuote => "quoted scalar without an end"
  | .separatorInQuote => "document separator in a quoted scalar"
  | .unexpected => "unexpected token"
  | .undefinedAlias name => "undefined alias '" ++ name ++ "'"
  | .repeatedAnchor name => "anchor '" ++ name ++ "' is defined twice"
  | .undefinedHandle handle => "undefined tag handle '" ++ handle ++ "'"
  | .severalDocuments => "expected a single document"
  | .unknownTag tag => "unknown tag '" ++ tag ++ "'"
  | .wrongShape tag => "value of the wrong shape for tag '" ++ tag ++ "'"
  | .badMerge => "only mappings can be merged"
  | .unhashableKey => "a collection cannot be a key"
  | .badBinary => "malformed binary data"
  | .codeTooLarge => "escape of a character beyond the last one"
  | .badSwitch text => "'" ++ text ++ "' is no boolean"
  | .badNumber text => "'" ++ text ++ "' is no number"
  | .emptyNumber => "a number without digits"
  | .badTime text => "'" ++ text ++ "' is no date"
  | .impossibleTime text => "'" ++ text ++ "' is an impossible date or time"
  | .timeInMapping => "a date or time cannot be the default value of a mapping"
  | .endlessScalar => "a mapping is its own default value"
  | .tooDeep => "too many collections inside each other"

end Problem

end Flowscript.Yaml
