/-!
Kinds of messages. Each kind has a code, a severity and a template. A template is a sequence of
words and holes; a hole waits for the value of its parameter.
-/

namespace Idl

inductive Severity where
  | warning
  | error
  deriving DecidableEq, Repr, Inhabited

def Severity.name : Severity → String
  | warning => "warning"
  | error => "error"

namespace Message

inductive Param where
  | statement
  | classifier
  | type
  | options
  | context
  | keyword
  | modifier
  | name
  | token
  | source
  | depth
  | position
  deriving DecidableEq, Repr, Inhabited

namespace Param

def all : List Param :=
  [statement, classifier, type, options, context, keyword, modifier, name,
    token, source, depth, position]

/-- The word a parameter is known by. -/
def word : Param → String
  | statement => "statement"
  | classifier => "classifier"
  | type => "type"
  | options => "options"
  | context => "context"
  | keyword => "keyword"
  | modifier => "modifier"
  | name => "name"
  | token => "token"
  | source => "source"
  | depth => "depth"
  | position => "position"

/-- How a hole is written in a text. -/
def hole (p : Param) : List Char :=
  '{' :: p.word.toList ++ ['}']

theorem mem_all (p : Param) : p ∈ all := by
  cases p <;> decide

end Param

inductive Part where
  | words (text : String)
  | hole (param : Param)
  deriving DecidableEq, Repr

instance : Coe String Part := ⟨.words⟩

instance : Coe Param Part := ⟨.hole⟩

def Part.text : Part → List Char
  | words text => text.toList
  | hole param => param.hole

/-- The kinds in three groups: malformed text (`P`), text without a meaning (`S`), and what the
checks of a finished declaration find (`V`). Warnings have codes of their own (`W`). -/
inductive Kind where
  | expectImportSource
  | expectSemicolon
  | expectStatementName
  | expectStatementBody
  | unexpectedEndOfInput
  | expectKeyword
  | expectToken
  | expectType
  | expectValue
  | unexpectedToken
  | unknownStatement
  | expectPackageElement
  | unknownClassifierType
  | expectAppropriateType
  | unexpectedModifier
  | unknownBaseField
  | overrideWithoutBase
  | unknownEnumerationValue
  | filterInNonObjectFactory
  | filterInFactoryForNonStructure
  | functionInNonObjectFactory
  | upcopyFromNonAncestor
  | unresolvedPackageElement
  | sourceNotFound
  | openSourceFailed
  | importDepthExceeded
  | unknownField
  | invalidParameterType
  | duplicateField
  | fieldShadowsBase
  | duplicateIdentification
  | duplicateOperator
  | nonSharableField
  | nonSharableDerived
  | duplicateEnumerationValue
  | duplicateDeclaration
  | importWithoutSourceProvider
  | misplacedComment
  | composedValueInNonFlags
  deriving DecidableEq, Repr, Inhabited

namespace Kind

def all : List Kind :=
  [expectImportSource, expectSemicolon, expectStatementName, expectStatementBody,
    unexpectedEndOfInput, expectKeyword, expectToken, expectType, expectValue, unexpectedToken,
    unknownStatement, expectPackageElement, unknownClassifierType, expectAppropriateType,
    unexpectedModifier, unknownBaseField, overrideWithoutBase, unknownEnumerationValue,
    filterInNonObjectFactory, filterInFactoryForNonStructure, functionInNonObjectFactory,
    upcopyFromNonAncestor, unresolvedPackageElement, sourceNotFound, openSourceFailed,
    importDepthExceeded, unknownField, invalidParameterType, duplicateField, fieldShadowsBase,
    duplicateIdentification, duplicateOperator, nonSharableField, nonSharableDerived,
    duplicateEnumerationValue, duplicateDeclaration, importWithoutSourceProvider, misplacedComment,
    composedValueInNonFlags]

def code : Kind → String
  | expectImportSource => "P001"
  | expectSemicolon => "P002"
  | expectStatementName => "P003"
  | expectStatementBody => "P004"
  | unexpectedEndOfInput => "P005"
  | expectKeyword => "P006"
  | expectToken => "P007"
  | expectType => "P008"
  | expectValue => "P009"
  | unexpectedToken => "P010"
  | unknownStatement => "P011"
  | expectPackageElement => "P012"
  | unknownClassifierType => "S001"
  | expectAppropriateType => "S002"
  | unexpectedModifier => "S003"
  | unknownBaseField => "S004"
  | overrideWithoutBase => "S005"
  | unknownEnumerationValue => "S006"
  | filterInNonObjectFactory => "S007"
  | filterInFactoryForNonStructure => "S008"
  | functionInNonObjectFactory => "S009"
  | upcopyFromNonAncestor => "S010"
  | unresolvedPackageElement => "S011"
  | sourceNotFound => "S012"
  | openSourceFailed => "S013"
  | importDepthExceeded => "S014"
  | unknownField => "S015"
  | invalidParameterType => "V001"
  | duplicateField => "V002"
  | fieldShadowsBase => "V003"
  | duplicateIdentification => "V004"
  | duplicateOperator => "V005"
  | nonSharableField => "V006"
  | nonSharableDerived => "V007"
  | duplicateEnumerationValue => "V008"
  | duplicateDeclaration => "V009"
  | importWithoutSourceProvider => "W001"
  | misplacedComment => "W002"
  | composedValueInNonFlags => "W003"

def name : Kind → String
  | expectImportSource => "ExpectImportSource"
  | expectSemicolon => "ExpectSemicolon"
  | expectStatementName => "ExpectStatementName"
  | expectStatementBody => "ExpectStatementBody"
  | unexpectedEndOfInput => "UnexpectedEndOfInput"
  | expectKeyword => "ExpectKeyword"
  | expectToken => "ExpectToken"
  | expectType => "ExpectType"
  | expectValue => "ExpectValue"
  | unexpectedToken => "UnexpectedToken"
  | unknownStatement => "UnknownStatement"
  | expectPackageElement => "ExpectPackageElement"
  | unknownClassifierType => "UnknownClassifierType"
  | expectAppropriateType => "ExpectAppropriateType"
  | unexpectedModifier => "UnexpectedModifier"
  | unknownBaseField => "UnknownBaseField"
  | overrideWithoutBase => "OverrideWithoutBase"
  | unknownEnumerationValue => "UnknownEnumerationValue"
  | filterInNonObjectFactory => "FilterInNonObjectFactory"
  | filterInFactoryForNonStructure => "FilterInFactoryForNonStructure"
  | functionInNonObjectFactory => "FunctionInNonObjectFactory"
  | upcopyFromNonAncestor => "UpcopyFromNonAncestor"
  | unresolvedPackageElement => "UnresolvedPackageElement"
  | sourceNotFound => "SourceNotFound"
  | openSourceFailed => "OpenSourceFailed"
  | importDepthExceeded => "ImportDepthExceeded"
  | unknownField => "UnknownField"
  | invalidParameterType => "InvalidParameterType"
  | duplicateField => "DuplicateField"
  | fieldShadowsBase => "FieldShadowsBase"
  | duplicateIdentification => "DuplicateIdentification"
  | duplicateOperator => "DuplicateOperator"
  | nonSharableField => "NonSharableField"
  | nonSharableDerived => "NonSharableDerived"
  | duplicateEnumerationValue => "DuplicateEnumerationValue"
  | duplicateDeclaration => "DuplicateDeclaration"
  | importWithoutSourceProvider => "ImportWithoutSourceProvider"
  | misplacedComment => "MisplacedComment"
  | composedValueInNonFlags => "ComposedValueInNonFlags"

def severity : Kind → Severity
  | importWithoutSourceProvider | misplacedComment | composedValueInNonFlags => .warning
  | _ => .error

/-- The kinds of what the checks of a finished declaration find. -/
def isFinding : Kind → Bool
  | invalidParameterType | duplicateField | fieldShadowsBase | duplicateIdentification
  | duplicateOperator | nonSharableField | nonSharableDerived | duplicateEnumerationValue
  | duplicateDeclaration | composedValueInNonFlags => true
  | _ => false

def template : Kind → List Part
  | expectImportSource => ["expected import source string"]
  | expectSemicolon => ["expected ';'"]
  | expectStatementName => ["expected ", Param.statement, " name"]
  | expectStatementBody => ["expected '\x7b' to open ", Param.statement, " body"]
  | unexpectedEndOfInput => ["unexpected end of input in ", Param.statement]
  | expectKeyword => ["expected keyword '", Param.keyword, "'"]
  | expectToken => ["expected '", Param.token, "'"]
  | expectType => ["expected ", Param.classifier, " type"]
  | expectValue => ["expected ", Param.type, " value for ", Param.statement]
  | unexpectedToken => ["unexpected token '", Param.token, "'"]
  | unknownStatement => ["unknown statement in ", Param.context, ", expected ", Param.options]
  | expectPackageElement => ["expected package element"]
  | unknownClassifierType => ["unknown ", Param.classifier, " type '", Param.type, "'"]
  | expectAppropriateType => [Param.classifier, " must be ", Param.options]
  | unexpectedModifier => ["unexpected modifier '", Param.modifier, "'"]
  | unknownBaseField => ["unknown field '", Param.name, "' in base structure"]
  | overrideWithoutBase => ["field '", Param.name, "' overrides nothing: the structure has no base"]
  | unknownEnumerationValue =>
    ["unknown enumeration value '", Param.name,
      "', composed values may only reference earlier values"]
  | filterInNonObjectFactory => ["filters are only allowed in object factories"]
  | filterInFactoryForNonStructure => ["filters require a structure as factory parameter"]
  | functionInNonObjectFactory => ["modifier 'function' applies only to object factories"]
  | upcopyFromNonAncestor => ["'", Param.type, "' is not a base of structure '", Param.name, "'"]
  | unresolvedPackageElement =>
    ["package element at position ", Param.position, " has nothing to inherit"]
  | sourceNotFound => ["import source '", Param.source, "' not found"]
  | openSourceFailed => ["cannot open import source '", Param.source, "'"]
  | importDepthExceeded =>
    ["import of '", Param.source, "' exceeds the depth limit of ", Param.depth]
  | unknownField => ["structure '", Param.type, "' has no field '", Param.name, "'"]
  | invalidParameterType =>
    [Param.classifier, " parameter type '", Param.type, "' must be one of: ", Param.options]
  | duplicateField => ["field '", Param.name, "' is declared more than once"]
  | fieldShadowsBase =>
    ["field '", Param.name, "' hides a field of base structure '", Param.type, "', use override"]
  | duplicateIdentification =>
    ["structure '", Param.name, "' declares identification more than once"]
  | duplicateOperator => ["operator '", Param.token, "' is declared more than once"]
  | nonSharableField =>
    ["field '", Param.name, "' of a sharable structure has non sharable type '", Param.type, "'"]
  | nonSharableDerived =>
    ["structure '", Param.name, "' must be sharable because its base '", Param.type, "' is"]
  | duplicateEnumerationValue => ["enumeration value '", Param.name, "' is declared more than once"]
  | duplicateDeclaration => ["'", Param.name, "' is already declared in this package"]
  | importWithoutSourceProvider => ["import ignored, no source provider is configured"]
  | misplacedComment => ["comment is not attached to any declaration"]
  | composedValueInNonFlags => ["composed value '", Param.name, "' in an enumeration without flags"]

theorem mem_all (k : Kind) : k ∈ all := by
  cases k <;> decide

end Kind

end Message

end Idl
