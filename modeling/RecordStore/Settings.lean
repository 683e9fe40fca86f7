import RecordStore.Text.Integer
import RecordStore.Value

/-! # Settings

The settings of client sessions and of the store, checked when they are made. They come from
named properties, each with a default.
-/

/-! ## Refusals -/

namespace RecordStore

inductive SettingsError where
  | notAnInteger (property : String) (raw : Value)
  | notText (role : String) (value : Value)
  | unsafeIdentifier (role : String) (name : Value)
  | longIdentifier (role name : String)
  | batchSizeNotInteger (value : Value)
  | negativeBatchSize
  | emptyDbName
  | emptyUrl
  | noThreads
  /-- A thread count that cannot be compared with a number. -/
  | unorderedThreads (value : Value)

namespace SettingsError

def message : SettingsError → String
  | .notAnInteger property raw => "Invalid value for " ++ property ++ " property: " ++ raw.written
  | .notText role value => role ++ " must be a string, got " ++ value.typeName
  | .unsafeIdentifier role name =>
    "Invalid " ++ role ++ " " ++ name.written ++ ": must start with letter/underscore and " ++
      "contain only alphanumeric characters and underscores"
  | .longIdentifier role name =>
    role ++ " " ++ Text.quoted name ++ " exceeds the 64-character limit"
  | .batchSizeNotInteger value => "batch_size must be an int, got " ++ value.written
  | .negativeBatchSize => "batch_size must be >= 0; use 0 to disable batching"
  | .emptyDbName => "db_name cannot be empty"
  | .emptyUrl => "url cannot be empty"
  | .noThreads => "io_threads must be > 0"
  | .unorderedThreads value =>
    "'<=' not supported between instances of '" ++ value.typeName ++ "' and 'int'"

end SettingsError

/-! ## Identifiers

Names that go into statements unescaped: ASCII letters, digits and underscores, no digit first, at
most 64 characters. One line end after the last of them passes the check of the characters.
-/

def maxIdentifierLength : Nat := 64

def isIdentifierStart (c : Char) : Bool := c.isAlpha || c = '_'

def isIdentifierPart (c : Char) : Bool := c.isAlphanum || c = '_'

/-- The characters without a line end in the last place. -/
def withoutFinalNewline (cs : List Char) : List Char :=
  if cs.getLast? = some '\n' then cs.dropLast else cs

def isIdentifier : List Char → Bool
  | [] => false
  | c :: rest => isIdentifierStart c && (withoutFinalNewline rest).all isIdentifierPart

/-- The name itself, if it may stand for a `role`. -/
def checkIdentifier (role : String) : Value → Except SettingsError String
  | .text name =>
    if !isIdentifier name.toList then .error (.unsafeIdentifier role (.text name))
    else if maxIdentifierLength < name.length then .error (.longIdentifier role name)
    else .ok name
  | .broken t => .error (.unsafeIdentifier role (.broken t))
  | v => .error (.notText role v)

/-! ## Properties and settings -/

abbrev Properties := List (String × Value)

namespace Properties

def get (props : Properties) (name default : String) : Value :=
  (props.lookup name).getD (.text default)

/-- The value of a property that writes an integer. -/
def getInteger (props : Properties) (name default : String) : Except SettingsError Int :=
  let raw := props.get name default
  match Text.readInteger raw.shown with
  | some n => .ok n
  | none => .error (.notAnInteger name raw)

end Properties

/-- The settings that client sessions share. The database name is kept as it was given, and a
batch size of zero carries out every call at once. -/
structure ClientSettings where
  dbName : Value
  batchSize : Nat
deriving Repr, Inhabited

namespace ClientSettings

def defaultDbName : String := "DB"

/-- The text that begins every row key. A name with a surrogate in it is left out: it stands here
with the surrogate escaped, where it makes every row key one without a UTF-8 form. -/
def dbText (s : ClientSettings) : String := s.dbName.shown

def make (dbName batchSize : Value) : Except SettingsError ClientSettings :=
  match batchSize with
  | .integer n =>
    if n < 0 then .error .negativeBatchSize
    else if dbName.isEmpty then .error .emptyDbName
    else .ok ⟨dbName, n.toNat⟩
  | v => .error (.batchSizeNotInteger v)

def ofProperties (props : Properties) : Except SettingsError ClientSettings := do
  let batchSize ← props.getInteger "kvbench.batchsize" "0"
  make (props.get "kvbench.dbname" defaultDbName) (.integer batchSize)

end ClientSettings

/-- The settings of the store. Only the table name has to be a text; the rest is kept as it was
given. -/
structure StoreSettings where
  url : Value
  tableName : String
  ioThreads : Value
deriving Repr, Inhabited

namespace StoreSettings

def defaultUrl : String := "sqlite:///kvbench.db"

def defaultTable : String := "kv"

/-- A thread count is any number above zero; truth values count as one and zero. -/
def checkThreads : Value → Except SettingsError Unit
  | .integer n => if n ≤ 0 then .error .noThreads else .ok ()
  | .boolean b => if b then .ok () else .error .noThreads
  | .real x => if x ≤ 0 then .error .noThreads else .ok ()
  | v => .error (.unorderedThreads v)

def make (url table ioThreads : Value) : Except SettingsError StoreSettings := do
  if url.isEmpty then throw .emptyUrl
  let tableName ← checkIdentifier "table" table
  checkThreads ioThreads
  return ⟨url, tableName, ioThreads⟩

def ofProperties (props : Properties) : Except SettingsError StoreSettings := do
  let ioThreads ← props.getInteger "kvbench.iothreads" "8"
  make (props.get "kvbench.url" defaultUrl) (props.get "kvbench.table" defaultTable)
    (.integer ioThreads)

end StoreSettings
end RecordStore
