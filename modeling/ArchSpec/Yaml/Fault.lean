/-!
# Why a YAML text is not accepted
-/

namespace ArchSpec.Yaml

/-- Why a YAML text is not accepted. -/
inductive Fault where
  | badCharacter
  | badIndicator
  | badEscape
  | badTag
  | badAnchor
  | badDirective
  | badBlockHeader
  | badIndentation
  | unexpectedMarker
  | unterminated
  | missingColon
  | misplacedEntry
  | misplacedKey
  | misplacedValue
  | badFlowColon
  | unexpectedToken
  | unknownHandle
  | unknownAnchor
  | severalDocuments
  | tooDeep
  | tooManyAliases
  | wrongType
  | outOfRange
  | duplicateField
  deriving DecidableEq, Repr

namespace Fault

def message : Fault → String
  | badCharacter => "the YAML text has a character that is not allowed"
  | badIndicator => "the YAML text has a character that starts no token"
  | badEscape => "the YAML text has a malformed escape"
  | badTag => "the YAML text has a malformed tag"
  | badAnchor => "the YAML text has a malformed anchor or alias"
  | badDirective => "the YAML text has a malformed directive"
  | badBlockHeader => "the YAML text has a malformed block text header"
  | badIndentation => "the YAML text has a tab in its indentation"
  | unexpectedMarker => "the YAML text has a document marker inside a quoted text"
  | unterminated => "the YAML text ends inside a quoted text"
  | missingColon => "the YAML text has a key without a colon"
  | misplacedEntry => "the YAML text has a list entry where none is allowed"
  | misplacedKey => "the YAML text has a key where none is allowed"
  | misplacedValue => "the YAML text has a value where none is allowed"
  | badFlowColon => "the YAML text has a colon before a bracket"
  | unexpectedToken => "the YAML text has a token that does not fit"
  | unknownHandle => "the YAML text has a tag with an undeclared handle"
  | unknownAnchor => "the YAML text has an alias without an anchor"
  | severalDocuments => "the YAML text has more than one document"
  | tooDeep => "the YAML text is nested too deeply"
  | tooManyAliases => "the YAML text repeats too much by aliases"
  | wrongType => "the YAML text has a value of the wrong type"
  | outOfRange => "the YAML text has a number that is out of range"
  | duplicateField => "the YAML text has a field twice"

def all : List Fault :=
  [badCharacter, badIndicator, badEscape, badTag, badAnchor, badDirective, badBlockHeader,
    badIndentation, unexpectedMarker, unterminated, missingColon, misplacedEntry, misplacedKey,
    misplacedValue, badFlowColon, unexpectedToken, unknownHandle, unknownAnchor, severalDocuments,
    tooDeep, tooManyAliases, wrongType, outOfRange, duplicateField]

end Fault

end ArchSpec.Yaml
