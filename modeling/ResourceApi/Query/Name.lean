/-!
Names in statements: a plain lower-case name that is no keyword stands as it is, every other one in double quotes.
-/

namespace ResourceApi.Query.Name

/-- Words that statements use themselves. -/
def keywords : List String :=
  ["add", "after", "all", "alter", "analyze", "and", "as", "asc", "attach", "autoincrement", "before", "begin",
    "between", "by", "cascade", "case", "cast", "check", "collate", "column", "commit", "conflict", "constraint",
    "create", "cross", "current_date", "current_time", "current_timestamp", "database", "default", "deferrable",
    "deferred", "delete", "desc", "detach", "distinct", "drop", "each", "else", "end", "escape", "except",
    "exclusive", "exists", "explain", "false", "fail", "for", "foreign", "from", "full", "glob", "group", "having",
    "if", "ignore", "immediate", "in", "index", "indexed", "initially", "inner", "insert", "instead", "intersect",
    "into", "is", "isnull", "join", "key", "left", "like", "limit", "match", "natural", "not", "notnull", "null",
    "of", "offset", "on", "or", "order", "outer", "plan", "pragma", "primary", "query", "raise", "references",
    "reindex", "rename", "replace", "restrict", "right", "rollback", "row", "select", "set", "table", "temp",
    "temporary", "then", "to", "transaction", "trigger", "true", "union", "unique", "update", "using", "vacuum",
    "values", "view", "virtual", "when", "where"]

/-- Characters of names that need no quotes. -/
def isPlain (c : Char) : Bool := ('a' ≤ c && c ≤ 'z') || c.isDigit || c == '_' || c == '$'

def needsQuotes (name : String) : Bool :=
  let cs := name.toList
  keywords.contains name || !cs.all isPlain ||
    match cs with
    | [] => true
    | first :: _ => first.isDigit || first == '$'

/-- A name as it stands in a statement; a double quote inside quotes is written twice. -/
def text (name : String) : String :=
  if needsQuotes name then
    let body := name.toList.flatMap fun c => if c = '"' then ['"', '"'] else [c]
    String.ofList ('"' :: body ++ ['"'])
  else name

end ResourceApi.Query.Name
