import GrammarView.Source.Basic

/-!
# The bundled grammar

The grammar of the Egg language, which is shown when no other grammar is given. It has a
variation for listings, in which the operators are spelled out by rules, and one for diagrams, in
which they are drawn as one rule each.
-/

namespace GrammarView.Bundled

/-- A part of a description under its tag. -/
def tagged (tag : String) (value : Json) : Json :=
  .obj [(tag, value)]

/-- A rule, used by its name. -/
def use (name : String) : Json :=
  .str name

/-- A word of the language. -/
def token (text : String) : Json :=
  tagged "token" (.str text)

/-- Several words of the language to choose from. -/
def tokens (texts : List String) : Json :=
  tagged "tokens" (.arr (texts.map .str))

/-- A class of characters. -/
def terminal (text : String) : Json :=
  tagged "terminal" (.str text)

/-- Another name of a class. -/
def aliased (text : String) : Json :=
  tagged "alias" (.str text)

/-- Parts one after the other. -/
def sequence (items : List Json) : Json :=
  tagged "sequence" (.arr items)

/-- Parts to choose from. -/
def choice (items : List Json) : Json :=
  tagged "choice" (.arr items)

/-- A part that may be left out. -/
def zeroOrOne (item : Json) : Json :=
  tagged "zeroOrOne" item

/-- A part any number of times. -/
def zeroOrMore (item : Json) : Json :=
  tagged "zeroOrMore" item

/-- A part at least once. -/
def oneOrMore (item : Json) : Json :=
  tagged "oneOrMore" item

/-- A rule at least once, with a part between its occurrences. -/
def listOf (item : String) (separator : Json) : Json :=
  .obj [("list", .str item), ("separator", separator)]

/-- Whether a rule is always or never shown in the place where it is used. -/
def inlined (value : Bool) : String × Json :=
  ("inline", .bool value)

/-- A rule that gets no diagram of its own. -/
def hidden : String × Json :=
  ("railroad", .bool false)

/-- The margin at the left of a definition. -/
def left (value : Int) : String × Json :=
  ("left", .int value)

/-- The margin at the right of a definition. -/
def right (value : Int) : String × Json :=
  ("right", .int value)

/-- A part with the settings of its rule beside it. -/
def described (body : Json) (settings : Entries Json) : Json :=
  match body with
  | .obj members => .obj (members ++ settings)
  | value => value

/-- The rules. -/
def rules : Entries Json :=
  [("module", described (oneOrMore (sequence [zeroOrMore (use "attribute"), use "statement"]))
     [inlined false, left 1, right 1]),
   ("attribute", described (sequence [token "@", listOf "identifier-attribute" (token "."),
     zeroOrOne (sequence [token "(", use "parameter-list", token ")"])]) [inlined false, left 1]),
   ("statement", choice [use "statement-compound", sequence [use "statement-simple", token ";"],
     use "definition-function", use "statement-if", use "statement-switch", use "statement-while",
     use "statement-do", use "statement-for", use "statement-foreach", use "statement-break",
     use "statement-continue", use "statement-throw", use "statement-try",
     use "statement-try-finally", use "statement-return", use "statement-yield"]),
   ("statement-simple", choice [use "statement-action", use "definition-type",
     use "definition-variable"]),
   ("statement-action", choice [use "statement-assign", use "statement-mutate",
     use "statement-call"]),
   ("statement-assign", sequence [use "assignment-target", use "operator-assignment",
     use "expression"]),
   ("statement-mutate", sequence [use "operator-mutation", use "assignment-target"]),
   ("statement-call", described (sequence [use "expression-primary", token "(",
     zeroOrOne (use "parameter-list"), token ")"]) [inlined false, left 1, right 1]),
   ("statement-compound", described (sequence [token "\x7b", zeroOrMore (use "statement"),
     token "\x7d"]) [inlined true]),
   ("statement-if", described (sequence [token "if", token "(", use "condition", token ")",
     use "statement-compound", zeroOrOne (sequence [token "else", use "statement-else"])])
     [inlined false, left 1]),
   ("statement-else", described (choice [use "statement-compound", use "statement-if"]) [hidden]),
   ("statement-switch", described (sequence [token "switch", token "(", use "expression",
     token ")", token "\x7b", oneOrMore (use "statement-case"), token "\x7d"]) [inlined false,
     left 1, right 1]),
   ("statement-case", sequence [oneOrMore (use "statement-case-value"),
     oneOrMore (use "statement")]),
   ("statement-case-value", described (choice [sequence [token "case", use "expression",
     token ":"], sequence [token "default", token ":"]]) [hidden]),
   ("statement-while", described (sequence [token "while", token "(", use "condition", token ")",
     use "statement-compound"]) [inlined false, left 1, right 1]),
   ("statement-do", described (sequence [token "do", use "statement-compound", token "while",
     token "(", use "expression", token ")", token ";"]) [inlined false, left 1, right 1]),
   ("statement-for", described (sequence [token "for", token "(",
     zeroOrOne (use "statement-simple"), token ";", zeroOrOne (use "condition"), token ";",
     zeroOrOne (use "statement-action"), token ")", use "statement-compound"]) [inlined false,
     left 1, right 1]),
   ("statement-foreach", described (sequence [token "for", token "(",
     use "statement-foreach-type", use "identifier-variable", token ":", use "expression",
     token ")", use "statement-compound"]) [inlined false, left 1, right 1]),
   ("statement-foreach-type", described (choice [sequence [token "var", zeroOrOne (token "?")],
     use "type-expression"]) [hidden]),
   ("statement-try", described (sequence [token "try", use "statement-compound",
     oneOrMore (use "statement-catch")]) [inlined false, left 1, right 1]),
   ("statement-try-finally", described (sequence [token "try", use "statement-compound",
     zeroOrMore (use "statement-catch"), token "finally", use "statement-compound"])
     [inlined false, left 1, right 1]),
   ("statement-catch", described (sequence [token "catch", token "(", use "type-expression",
     use "identifier-variable", token ")", use "statement-compound"]) [inlined false, left 1,
     right 1]),
   ("statement-break", described (sequence [token "break", token ";"]) [inlined false, left 1,
     right 1]),
   ("statement-continue", described (sequence [token "continue", token ";"]) [inlined false,
     left 1, right 1]),
   ("statement-return", described (sequence [token "return", zeroOrOne (use "expression"),
     token ";"]) [inlined false, left 1, right 1]),
   ("statement-yield", described (sequence [token "yield", zeroOrOne (token "..."),
     use "expression", token ";"]) [inlined false, left 1, right 1]),
   ("statement-throw", described (sequence [token "throw", zeroOrOne (use "expression"),
     token ";"]) [inlined false, left 1, right 1]),
   ("definition-type", described (sequence [token "type", use "identifier-type",
     zeroOrOne (sequence [token "<", use "definition-type-list", token ">"]), token "=",
     use "definition-type-value"]) [inlined false, left 1, right 1]),
   ("definition-type-list", listOf "identifier-type" (token ",")),
   ("definition-type-value", described (choice [use "type-expression", use "literal-type"])
     [hidden]),
   ("definition-variable", described (choice [sequence [token "var", zeroOrOne (token "?"),
     use "identifier-variable", token "=", use "expression"], sequence [use "type-expression",
     use "identifier-variable", zeroOrOne (sequence [token "=", use "expression"])]])
     [inlined false]),
   ("definition-function", described (sequence [use "type-expression", use "identifier-variable",
     token "(", zeroOrOne (use "definition-function-parameter-list"), token ")",
     use "statement-compound"]) [inlined false, left 1, right 1]),
   ("definition-function-parameter-list", listOf "definition-function-parameter" (token ",")),
   ("definition-function-parameter", described (sequence [zeroOrMore (use "attribute"),
     use "definition-function-parameter-declaration"]) [inlined false, left 1]),
   ("definition-function-parameter-declaration",
     described (choice [sequence [use "type-expression", use "identifier-variable",
     zeroOrOne (sequence [token "=", token "null"])], sequence [token "...",
     use "type-expression", use "identifier-variable"], sequence [token "...",
     use "type-expression", token "[", token "]", use "identifier-variable"]]) [hidden]),
   ("type-list", listOf "type-expression" (token ",")),
   ("type-expression", described (listOf "type-expression-postfix" (token "|")) [inlined false,
     left 1, right 1]),
   ("type-expression-postfix", sequence [use "type-expression-primary",
     zeroOrMore (use "type-expression-suffix")]),
   ("type-expression-primary", choice [sequence [use "identifier-type",
     zeroOrOne (sequence [token "<", use "type-list", token ">"])], token "void", token "bool",
     token "int", token "float", token "string", token "object", token "any",
     sequence [token "type", token "null"], sequence [token "type", use "literal-type"],
     sequence [token "(", use "type-expression", token ")"]]),
   ("type-expression-suffix", described (choice [token "?", token "!", token "*",
     sequence [token "[", zeroOrOne (use "type-expression"), token "]"], sequence [token "(",
     zeroOrOne (use "definition-function-parameter-list"), token ")"]]) [hidden]),
   ("expression", choice [use "expression-ternary"]),
   ("expression-ternary", choice [use "expression-binary", sequence [use "expression-ternary",
     token "?", use "expression", token ":", use "expression-binary"]]),
   ("expression-binary", choice [use "expression-logical-or", sequence [use "expression-binary",
     token "??", use "expression-logical-or"]]),
   ("expression-logical-or", choice [use "expression-logical-and",
     sequence [use "expression-logical-or", token "||", use "expression-logical-and"]]),
   ("expression-logical-and", choice [use "expression-inclusive-or",
     sequence [use "expression-logical-and", token "&&", use "expression-inclusive-or"]]),
   ("expression-inclusive-or", choice [use "expression-exclusive-or",
     sequence [use "expression-inclusive-or", token "|", use "expression-exclusive-or"]]),
   ("expression-exclusive-or", choice [use "expression-and",
     sequence [use "expression-exclusive-or", token "^", use "expression-and"]]),
   ("expression-and", choice [use "expression-equality", sequence [use "expression-and",
     token "&", use "expression-equality"]]),
   ("expression-equality", choice [use "expression-relational",
     sequence [use "expression-equality", token "==", use "expression-relational"],
     sequence [use "expression-equality", token "!=", use "expression-relational"]]),
   ("expression-relational", choice [use "expression-shift",
     sequence [use "expression-relational", token "<", use "expression-shift"],
     sequence [use "expression-relational", token ">", use "expression-shift"],
     sequence [use "expression-relational", token "<=", use "expression-shift"],
     sequence [use "expression-relational", token ">=", use "expression-shift"]]),
   ("expression-shift", choice [use "expression-additive", sequence [use "expression-shift",
     token "<<", use "expression-additive"], sequence [use "expression-shift", token ">>",
     use "expression-additive"], sequence [use "expression-shift", token ">>>",
     use "expression-additive"]]),
   ("expression-additive", choice [use "expression-multiplicative",
     sequence [use "expression-additive", token "+", use "expression-multiplicative"],
     sequence [use "expression-additive", token "-", use "expression-multiplicative"]]),
   ("expression-multiplicative", choice [use "expression-unary",
     sequence [use "expression-multiplicative", token "*", use "expression-unary"],
     sequence [use "expression-multiplicative", token "/", use "expression-unary"],
     sequence [use "expression-multiplicative", token "%", use "expression-unary"]]),
   ("expression-unary", described (sequence [zeroOrMore (use "operator-unary"),
     use "expression-primary"]) [inlined false, left 1, right 1]),
   ("expression-primary", described (sequence [use "expression-prefix",
     zeroOrMore (use "expression-suffix")]) [inlined false, right 1]),
   ("expression-prefix", described (choice [use "identifier-variable", use "literal",
     use "expression-function", use "expression-lambda", sequence [token "(", use "expression",
     token ")"]]) [hidden]),
   ("expression-suffix", described (choice [sequence [token "[", use "expression", token "]"],
     sequence [token ".", use "identifier-property"], sequence [token "(",
     zeroOrOne (use "parameter-list"), token ")"]]) [hidden]),
   ("expression-function", described (sequence [use "type-expression", token "(",
     zeroOrOne (use "definition-function-parameter-list"), token ")", use "statement-compound"])
     [inlined false, left 1, right 1]),
   ("expression-lambda", described (sequence [use "expression-lambda-parameters", token "=>",
     use "expression-lambda-body"]) [inlined false]),
   ("expression-lambda-parameters", described (choice [use "identifier-variable",
     sequence [token "(", zeroOrOne (use "expression-lambda-parameter-list"), token ")"]])
     [hidden]),
   ("expression-lambda-parameter-list", listOf "identifier-variable" (token ",")),
   ("expression-lambda-body", described (choice [use "expression", use "statement-compound"])
     [hidden]),
   ("operator-unary", described (tokens ["*", "-", "~", "!"]) [hidden]),
   ("operator-binary", described (tokens ["??", "||", "&&", "|", "^", "&", "==", "!=", "<", ">",
     "<=", ">=", "<<", ">>", ">>>", "+", "-", "*", "/", "%"]) [hidden]),
   ("operator-assignment", described (tokens ["=", "+=", "-=", "*=", "/=", "%=", "<<=", ">>=",
     ">>>=", "&=", "|=", "^=", "&&=", "||=", "??="]) [hidden]),
   ("operator-mutation", described (tokens ["++", "--"]) [hidden]),
   ("condition", choice [use "expression", sequence [use "condition-variable-type",
     use "identifier-variable", token "=", use "expression"]]),
   ("condition-variable-type", described (choice [sequence [token "var", zeroOrOne (token "?")],
     use "type-expression"]) [hidden]),
   ("assignment-target", choice [use "identifier-variable", sequence [token "*",
     use "expression-unary"], sequence [use "expression-primary", token "[", use "expression",
     token "]"], sequence [use "expression-primary", token ".", use "identifier-property"]]),
   ("parameter-list", choice [use "parameter-positional-list",
     sequence [use "parameter-positional-list", token ",", use "parameter-named-list"],
     use "parameter-named-list"]),
   ("parameter", described (choice [use "expression", sequence [token "...", use "expression"],
     sequence [use "identifier-variable", token ":", use "expression"]]) [hidden]),
   ("parameter-positional-list", listOf "parameter-positional" (token ",")),
   ("parameter-positional", choice [use "expression", sequence [token "...", use "expression"]]),
   ("parameter-named-list", listOf "parameter-named" (token ",")),
   ("parameter-named", sequence [use "identifier-variable", token ":", use "expression"]),
   ("identifier-attribute", aliased "identifier"),
   ("identifier-property", aliased "identifier"),
   ("identifier-type", aliased "identifier"),
   ("identifier-variable", aliased "identifier"),
   ("identifier", described (sequence [use "identifier-head", zeroOrMore (use "identifier-tail")])
     [inlined false]),
   ("identifier-head", described (choice [terminal "ascii-letter", token "_"]) [hidden]),
   ("identifier-tail", described (choice [terminal "ascii-alphanumeric",
     terminal "non-ascii-unicode", token "_"]) [hidden]),
   ("literal", choice [token "null", token "false", token "true", use "literal-int",
     use "literal-float", use "literal-string", use "literal-object", use "literal-array"]),
   ("literal-int", described (sequence [zeroOrOne (use "literal-sign"), use "literal-digits"])
     [inlined false, right 1]),
   ("literal-sign", described (tokens ["+", "-"]) [hidden]),
   ("literal-digits", oneOrMore (terminal "digit")),
   ("literal-float", described (sequence [zeroOrOne (use "literal-sign"), use "literal-digits",
     token ".", use "literal-digits", zeroOrOne (sequence [use "literal-exponent",
     zeroOrOne (use "literal-sign"), use "literal-digits"])]) [inlined false]),
   ("literal-exponent", described (choice [token "E", token "e"]) [hidden]),
   ("literal-string", described (sequence [token "\"",
     zeroOrMore (use "literal-string-character"), token "\""]) [inlined false, left 1, right 1]),
   ("literal-string-character",
     described (choice [terminal "any-character-except-backslash-and-double-quote",
     sequence [token "\\", token "\\"], sequence [token "\\", token "\""], sequence [token "\\",
     token "b"], sequence [token "\\", token "f"], sequence [token "\\", token "n"],
     sequence [token "\\", token "r"], sequence [token "\\", token "t"], sequence [token "\\",
     token "v"], sequence [token "\\", token "0"], sequence [token "\\", token "U", token "+",
     oneOrMore (terminal "hexadecimal-digit"), token ";"]]) [hidden]),
   ("literal-object", described (sequence [token "\x7b", zeroOrOne (use "literal-object-list"),
     token "\x7d"]) [inlined false, left 1, right 1]),
   ("literal-object-list", listOf "literal-object-entry" (token ",")),
   ("literal-object-entry", described (choice [sequence [use "literal-object-key", token ":",
     use "expression"], sequence [token "...", use "expression"]]) [hidden]),
   ("literal-object-key", described (choice [use "identifier-property", use "literal-string"])
     [hidden]),
   ("literal-array", described (sequence [token "[", zeroOrOne (use "literal-array-list"),
     token "]"]) [inlined false, left 1, right 1]),
   ("literal-array-list", listOf "literal-array-entry" (token ",")),
   ("literal-array-entry", described (choice [use "expression", sequence [token "...",
     use "expression"]]) [hidden]),
   ("literal-type", described (sequence [token "\x7b", zeroOrOne (use "literal-type-list"),
     token "\x7d"]) [inlined false, left 1, right 1]),
   ("literal-type-list", listOf "literal-type-entry" (token ",")),
   ("literal-type-entry", described (sequence [use "literal-object-key", token ":",
     use "literal-type-value"]) [hidden]),
   ("literal-type-value", described (choice [use "expression", use "type-expression",
     use "literal-type"]) [hidden])]

/-- The overlay for listings. -/
def full : Entries Json :=
  [("operator-binary", .null),
   ("parameter", .null)]

/-- The overlay for diagrams. -/
def concise : Entries Json :=
  [("expression", described (sequence [zeroOrOne (sequence [use "expression", token "?",
     use "expression", token ":"]), use "expression-binary"]) [inlined false, right 1]),
   ("expression-ternary", .null),
   ("expression-binary", described (sequence [zeroOrOne (sequence [use "expression-binary",
     use "operator-binary"]), use "expression-unary"]) [inlined false, right 1]),
   ("expression-logical-or", .null),
   ("expression-logical-and", .null),
   ("expression-inclusive-or", .null),
   ("expression-exclusive-or", .null),
   ("expression-and", .null),
   ("expression-equality", .null),
   ("expression-relational", .null),
   ("expression-shift", .null),
   ("expression-additive", .null),
   ("expression-multiplicative", .null),
   ("parameter-list", described (listOf "parameter" (token ",")) [inlined false, left 1,
     right 1]),
   ("parameter-positional-list", .null),
   ("parameter-positional", .null),
   ("parameter-named-list", .null),
   ("parameter-named", .null)]

/-- The grammar with its variations. -/
def source : Source :=
  ⟨rules, [("full", full), ("concise", concise)]⟩

/-- How the rules are nested in the poster: the definition that a rule is tied to, or none for a
rule that is spliced without a panel. -/
def posterTargets : Entries (Option String) :=
  [("attribute", some "definition-function-parameter"),
   ("parameter-list", some "expression-primary"),
   ("expression", some "statement-action"),
   ("expression-unary", some "expression-binary"),
   ("expression-primary", some "expression-unary"),
   ("definition-function-parameter", some "definition-function"),
   ("type-expression", some "definition-type"),
   ("type-expression-primary", none),
   ("statement-switch", none),
   ("statement-while", none),
   ("statement-do", none),
   ("statement-for", none),
   ("statement-foreach", none),
   ("statement-break", none),
   ("statement-continue", none),
   ("statement-throw", none),
   ("statement-try", none),
   ("statement-try-finally", none),
   ("statement-return", none),
   ("statement-yield", none),
   ("statement-call", none),
   ("literal-type", some "definition-type")]

end GrammarView.Bundled
