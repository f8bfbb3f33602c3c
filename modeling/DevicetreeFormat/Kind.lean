/-!
# Kinds of syntax

The grammar names every node of a tree by a text. The kinds are the names the
printer knows; all other names share the kind `unknown`. A few names are
spellings of the same kind.
-/

namespace DevicetreeFormat

set_option autoImplicit false

inductive Kind
  | document
  | comment
  | fileVersion
  | plugin
  | memoryReservation
  | fileInclude
  | deleteNode
  | deleteProperty
  | omitIfNoRef
  | includeDirective
  | defineDirective
  | functionDirective
  | callDirective
  | ifDirective
  | ifdefDirective
  | elseBranch
  | elifBranch
  | elifdefBranch
  | directiveParameters
  | directiveArgument
  | labeledItem
  | node
  | property
  | identifier
  | reference
  | path
  | unitAddress
  | stringLiteral
  | systemLibString
  | integerLiteral
  | charLiteral
  | integerCells
  | byteString
  | callExpression
  | parenthesizedExpression
  | binaryExpression
  | unaryExpression
  | conditionalExpression
  | leftBrace
  | rightBrace
  | semicolon
  | comma
  | equals
  | colon
  | ampersand
  | atSign
  | pathOpen
  | leftAngle
  | rightAngle
  | leftBracket
  | rightBracket
  | unknown
deriving DecidableEq

namespace Kind

def grammarName : Kind → String
  | .document => "document"
  | .comment => "comment"
  | .fileVersion => "file_version"
  | .plugin => "plugin"
  | .memoryReservation => "memory_reservation"
  | .fileInclude => "dtsi_include"
  | .deleteNode => "delete_node"
  | .deleteProperty => "delete_property"
  | .omitIfNoRef => "omit_if_no_ref"
  | .includeDirective => "preproc_include"
  | .defineDirective => "preproc_def"
  | .functionDirective => "preproc_function_def"
  | .callDirective => "preproc_call"
  | .ifDirective => "preproc_if"
  | .ifdefDirective => "preproc_ifdef"
  | .elseBranch => "preproc_else"
  | .elifBranch => "preproc_elif"
  | .elifdefBranch => "preproc_elifdef"
  | .directiveParameters => "preproc_params"
  | .directiveArgument => "preproc_arg"
  | .labeledItem => "labeled_item"
  | .node => "node"
  | .property => "property"
  | .identifier => "identifier"
  | .reference => "reference"
  | .path => "path"
  | .unitAddress => "unit_address"
  | .stringLiteral => "string_literal"
  | .systemLibString => "system_lib_string"
  | .integerLiteral => "integer_literal"
  | .charLiteral => "char_literal"
  | .integerCells => "integer_cells"
  | .byteString => "byte_string_literal"
  | .callExpression => "call_expression"
  | .parenthesizedExpression => "parenthesized_expression"
  | .binaryExpression => "binary_expression"
  | .unaryExpression => "unary_expression"
  | .conditionalExpression => "conditional_expression"
  | .leftBrace => "\x7b"
  | .rightBrace => "\x7d"
  | .semicolon => ";"
  | .comma => ","
  | .equals => "="
  | .colon => ":"
  | .ampersand => "&"
  | .atSign => "@"
  | .pathOpen => "&\x7b"
  | .leftAngle => "<"
  | .rightAngle => ">"
  | .leftBracket => "["
  | .rightBracket => "]"
  | .unknown => "<unknown>"

def known : List Kind :=
  [.document, .comment, .fileVersion, .plugin, .memoryReservation, .fileInclude,
   .deleteNode, .deleteProperty, .omitIfNoRef, .includeDirective, .defineDirective,
   .functionDirective, .callDirective, .ifDirective, .ifdefDirective, .elseBranch,
   .elifBranch, .elifdefBranch, .directiveParameters, .directiveArgument, .labeledItem,
   .node, .property, .identifier, .reference, .path, .unitAddress, .stringLiteral,
   .systemLibString, .integerLiteral, .charLiteral, .integerCells, .byteString,
   .callExpression, .parenthesizedExpression, .binaryExpression, .unaryExpression,
   .conditionalExpression, .leftBrace, .rightBrace, .semicolon, .comma, .equals, .colon,
   .ampersand, .atSign, .pathOpen, .leftAngle, .rightAngle, .leftBracket, .rightBracket]

/-- The name under which a kind is listed, for a name with several spellings. -/
def canonicalName (name : String) : String :=
  if name = "byte_string" then "byte_string_literal"
  else if name = "property_identifier" || name = "label_identifier" || name = "node_identifier" then
    "identifier"
  else name

def ofName (name : String) : Kind :=
  (known.find? fun kind => kind.grammarName = canonicalName name).getD .unknown

/-- Directives that stand on a line of their own, conditionals included. -/
def isDirective : Kind → Bool
  | .includeDirective | .defineDirective | .functionDirective | .callDirective | .ifDirective
  | .ifdefDirective => true
  | _ => false

/-- The later branches of a conditional. -/
def isBranch : Kind → Bool
  | .elseBranch | .elifBranch | .elifdefBranch => true
  | _ => false

def isHeader : Kind → Bool
  | .fileVersion | .plugin => true
  | _ => false

/-- Items that only put a label or a keyword before another item. -/
def isWrapper : Kind → Bool
  | .labeledItem | .omitIfNoRef => true
  | _ => false

end Kind

end DevicetreeFormat
