/-! # Table names

How the database takes the name of a table. Statements write a name bare when it has no capital
letter and is no word that they are known to reserve, and quoted otherwise. A final line break
belongs to a quoted name and is lost from a bare one.
-/

namespace RecordStore

inductive TableUse where
  /-- The table goes by the name as it stands. -/
  | exact
  /-- The table goes by the name without its final line break, and is not found under the name. -/
  | shortened
  /-- As with a shortened name, but no statement can name the columns of the table. -/
  | barred
  /-- There is such a table of the database's own, which keeps no entries. -/
  | builtIn
  /-- There can be no such table. -/
  | refused
deriving DecidableEq, Repr, Inhabited

namespace TableUse

/-- What the database tells of itself, each in a table of its own. -/
def pragmaNames : List String :=
  ["analysis_limit", "application_id", "auto_vacuum", "automatic_index", "busy_timeout",
    "cache_size", "cache_spill", "cell_size_check", "checkpoint_fullfsync", "collation_list",
    "compile_options", "count_changes", "data_version", "database_list", "default_cache_size",
    "defer_foreign_keys", "empty_result_callbacks", "encoding", "foreign_key_check",
    "foreign_key_list", "foreign_keys", "freelist_count", "full_column_names", "fullfsync",
    "function_list", "hard_heap_limit", "ignore_check_constraints", "index_info", "index_list",
    "index_xinfo", "integrity_check", "journal_mode", "journal_size_limit", "legacy_alter_table",
    "locking_mode", "max_page_count", "module_list", "optimize", "page_count", "page_size",
    "pragma_list", "query_only", "quick_check", "read_uncommitted", "recursive_triggers",
    "reverse_unordered_selects", "schema_version", "secure_delete", "short_column_names",
    "soft_heap_limit", "synchronous", "table_info", "table_list", "table_xinfo", "temp_store",
    "threads", "trusted_schema", "user_version", "writable_schema"]

/-- Tables that every database has and keeps to itself. -/
def systemTables : List String :=
  ["sqlite_master", "sqlite_schema", "sqlite_temp_master", "sqlite_temp_schema", "json_each",
    "json_tree", "fts3tokenize", "sqlite_stmt", "dbstat"] ++ pragmaNames.map ("pragma_" ++ ·)

/-- Tables that every database has but cannot open. -/
def brokenTables : List String := ["fts4aux"]

/-- Words of the statement language that cannot name a table bare. -/
def reservedWords : List String :=
  ["add", "all", "alter", "and", "as", "autoincrement", "between", "case", "check", "collate",
    "commit", "constraint", "create", "default", "deferrable", "delete", "distinct", "drop", "else",
    "escape", "except", "exists", "foreign", "from", "group", "having", "if", "in", "index",
    "insert", "intersect", "into", "is", "isnull", "join", "limit", "not", "nothing", "notnull",
    "null", "on", "or", "order", "primary", "references", "returning", "select", "set", "table",
    "then", "to", "transaction", "union", "unique", "update", "using", "values", "when", "where"]

/-- The reserved words that are written bare all the same. -/
def unquotedWords : List String := ["nothing", "returning"]

/-- Words that can name a table bare, but begin a value where its columns are named. -/
def valueWords : List String :=
  ["cast", "current_date", "current_time", "current_timestamp", "raise"]

/-- Names that the database keeps for itself. -/
def isReserved (lowered : List Char) : Bool := lowered.take 7 = "sqlite_".toList

def ofName (name : String) : TableUse :=
  let cs := name.toList
  let lowered := cs.map Char.toLower
  if systemTables.contains (String.ofList lowered) then .builtIn
  else if brokenTables.contains (String.ofList lowered) || isReserved lowered then .refused
  else if cs ≠ lowered then .exact
  else if cs.getLast? ≠ some '\n' then
    if unquotedWords.contains name then .refused else .exact
  else
    let stem := String.ofList cs.dropLast
    if reservedWords.contains stem then .refused
    else if valueWords.contains stem then .barred
    else .shortened

end TableUse
end RecordStore
