/-!
# Kinds of tokens

A token is a keyword, a symbol, or a member of one of six classes: two classes of names and
four of literals. Keywords and symbols have a fixed spelling. The kinds are listed in the
order in which they take precedence over each other when a text can be read as several.
-/

namespace Llama

/-- What a token is, apart from its text. -/
inductive TokenKind where
  | kwAnd | kwArray | kwBegin | kwBool | kwChar | kwDelete | kwDim | kwDo | kwDone | kwDownto
  | kwElse | kwEnd | kwFalse | kwFloat | kwFor | kwIf | kwIn | kwInt | kwLet | kwMatch | kwMod
  | kwMutable | kwNew | kwNot | kwOf | kwRec | kwRef | kwThen | kwTo | kwTrue | kwType | kwUnit
  | kwWhile | kwWith
  | arrow | equals | pipe | plus | minus | times | divide | fPlus | fMinus | fTimes | fDivide
  | fPow | bang | semicolon | bAnd | bOr | neq | lt | gt | le | ge | natEq | natNeq | assign
  | lParen | rParen | lBracket | rBracket | comma | colon
  /-- A name that starts with a small letter. -/
  | genid
  /-- A name that starts with a capital letter. -/
  | conid
  | intLiteral | floatLiteral | charLiteral | stringLiteral
deriving DecidableEq, Repr

namespace TokenKind

/-- Every kind, from the one that takes precedence over all others to the last. -/
def all : List TokenKind :=
  [.kwAnd, .kwArray, .kwBegin, .kwBool, .kwChar, .kwDelete, .kwDim, .kwDo, .kwDone, .kwDownto,
   .kwElse, .kwEnd, .kwFalse, .kwFloat, .kwFor, .kwIf, .kwIn, .kwInt, .kwLet, .kwMatch, .kwMod,
   .kwMutable, .kwNew, .kwNot, .kwOf, .kwRec, .kwRef, .kwThen, .kwTo, .kwTrue, .kwType, .kwUnit,
   .kwWhile, .kwWith, .arrow, .equals, .pipe, .plus, .minus, .times, .divide, .fPlus, .fMinus,
   .fTimes, .fDivide, .fPow, .bang, .semicolon, .bAnd, .bOr, .neq, .lt, .gt, .le, .ge, .natEq,
   .natNeq, .assign, .lParen, .rParen, .lBracket, .rBracket, .comma, .colon, .genid, .conid,
   .intLiteral, .floatLiteral, .charLiteral, .stringLiteral]

/-- The spelling of a keyword or symbol; the classes have none. -/
def text : TokenKind → Option String
  | .kwAnd => some "and"
  | .kwArray => some "array"
  | .kwBegin => some "begin"
  | .kwBool => some "bool"
  | .kwChar => some "char"
  | .kwDelete => some "delete"
  | .kwDim => some "dim"
  | .kwDo => some "do"
  | .kwDone => some "done"
  | .kwDownto => some "downto"
  | .kwElse => some "else"
  | .kwEnd => some "end"
  | .kwFalse => some "false"
  | .kwFloat => some "float"
  | .kwFor => some "for"
  | .kwIf => some "if"
  | .kwIn => some "in"
  | .kwInt => some "int"
  | .kwLet => some "let"
  | .kwMatch => some "match"
  | .kwMod => some "mod"
  | .kwMutable => some "mutable"
  | .kwNew => some "new"
  | .kwNot => some "not"
  | .kwOf => some "of"
  | .kwRec => some "rec"
  | .kwRef => some "ref"
  | .kwThen => some "then"
  | .kwTo => some "to"
  | .kwTrue => some "true"
  | .kwType => some "type"
  | .kwUnit => some "unit"
  | .kwWhile => some "while"
  | .kwWith => some "with"
  | .arrow => some "->"
  | .equals => some "="
  | .pipe => some "|"
  | .plus => some "+"
  | .minus => some "-"
  | .times => some "*"
  | .divide => some "/"
  | .fPlus => some "+."
  | .fMinus => some "-."
  | .fTimes => some "*."
  | .fDivide => some "/."
  | .fPow => some "**"
  | .bang => some "!"
  | .semicolon => some ";"
  | .bAnd => some "&&"
  | .bOr => some "||"
  | .neq => some "<>"
  | .lt => some "<"
  | .gt => some ">"
  | .le => some "<="
  | .ge => some ">="
  | .natEq => some "=="
  | .natNeq => some "!="
  | .assign => some ":="
  | .lParen => some "("
  | .rParen => some ")"
  | .lBracket => some "["
  | .rBracket => some "]"
  | .comma => some ","
  | .colon => some ":"
  | .genid | .conid | .intLiteral | .floatLiteral | .charLiteral | .stringLiteral => none

def name : TokenKind → String
  | .kwAnd => "AND"
  | .kwArray => "ARRAY"
  | .kwBegin => "BEGIN"
  | .kwBool => "BOOL"
  | .kwChar => "CHAR"
  | .kwDelete => "DELETE"
  | .kwDim => "DIM"
  | .kwDo => "DO"
  | .kwDone => "DONE"
  | .kwDownto => "DOWNTO"
  | .kwElse => "ELSE"
  | .kwEnd => "END"
  | .kwFalse => "FALSE"
  | .kwFloat => "FLOAT"
  | .kwFor => "FOR"
  | .kwIf => "IF"
  | .kwIn => "IN"
  | .kwInt => "INT"
  | .kwLet => "LET"
  | .kwMatch => "MATCH"
  | .kwMod => "MOD"
  | .kwMutable => "MUTABLE"
  | .kwNew => "NEW"
  | .kwNot => "NOT"
  | .kwOf => "OF"
  | .kwRec => "REC"
  | .kwRef => "REF"
  | .kwThen => "THEN"
  | .kwTo => "TO"
  | .kwTrue => "TRUE"
  | .kwType => "TYPE"
  | .kwUnit => "UNIT"
  | .kwWhile => "WHILE"
  | .kwWith => "WITH"
  | .arrow => "ARROW"
  | .equals => "EQUALS"
  | .pipe => "PIPE"
  | .plus => "PLUS"
  | .minus => "MINUS"
  | .times => "TIMES"
  | .divide => "DIVIDE"
  | .fPlus => "F_PLUS"
  | .fMinus => "F_MINUS"
  | .fTimes => "F_TIMES"
  | .fDivide => "F_DIVIDE"
  | .fPow => "F_POW"
  | .bang => "BANG"
  | .semicolon => "SEMICOLON"
  | .bAnd => "B_AND"
  | .bOr => "B_OR"
  | .neq => "NEQ"
  | .lt => "LT"
  | .gt => "GT"
  | .le => "LE"
  | .ge => "GE"
  | .natEq => "NAT_EQ"
  | .natNeq => "NAT_NEQ"
  | .assign => "ASSIGN"
  | .lParen => "L_PAREN"
  | .rParen => "R_PAREN"
  | .lBracket => "L_BRACKET"
  | .rBracket => "R_BRACKET"
  | .comma => "COMMA"
  | .colon => "COLON"
  | .genid => "GENID"
  | .conid => "CONID"
  | .intLiteral => "INT_LITERAL"
  | .floatLiteral => "FLOAT_LITERAL"
  | .charLiteral => "CHAR_LITERAL"
  | .stringLiteral => "STRING_LITERAL"

/-- What an error says was expected: a spelling in quotes, or the name of a class. -/
def description (kind : TokenKind) : String :=
  match kind.text with
  | some text => "'" ++ text ++ "'"
  | none => String.ofList (kind.name.toList.map fun c => if c = '_' then ' ' else c.toLower)

theorem mem_all (kind : TokenKind) : kind ∈ all := by
  cases kind <;> decide

end TokenKind

end Llama
