import RecordStore.Attempt
import RecordStore.KeyMap
import RecordStore.Store.Name

/-! # Stores

A store holds one table of committed entries in a database that may be out of reach. The table has
to be created before it can be used, and a store that has been closed begins no transactions.
-/

/-! ## Links

A link is a connection to the database, used by one transaction at a time and then kept for another.
What it remembers decides one thing only: a limited read that the link has prepared gets its limit
checked before the database is asked.
-/

namespace RecordStore

structure Link where
  /-- Whether the table was there when the link last used it. -/
  sawTable : Bool
  /-- Whether the limited read was ever prepared. -/
  preparedLimit : Bool
deriving DecidableEq, Repr, Inhabited

namespace Link

/-- How many links are kept while they are not in use. -/
def maxKept : Nat := 5

def fresh : Link := ⟨false, false⟩

/-- The link after a statement used the table, or found that it is not there. -/
def look (l : Link) (hasTable : Bool) : Link := { l with sawTable := hasTable }

/-- The link after preparing the limited read, which works if the table is there or was when the
link last used it. -/
def prepareLimit (l : Link) (hasTable : Bool) : Link :=
  { l with preparedLimit := l.preparedLimit || l.sawTable || hasTable }

end Link

/-! ## The table and its store -/

inductive Table where
  | missing
  /-- There is a table, but no statement can reach its entries. -/
  | barred
  /-- The committed entries. -/
  | holding (entries : KeyMap Bytes)

namespace Table

def entries? : Table → Option (KeyMap Bytes)
  | .holding entries => some entries
  | _ => none

end Table

structure Store where
  tableName : String
  table : Table
  /-- Whether the database can be opened. -/
  reachable : Bool
  isOpen : Bool
  /-- What closing the store fails with, if it does. -/
  closeFault : Option Fault
  /-- The links that are not in use, the one unused for longest first. -/
  links : List Link

namespace Store

/-- A new store on an empty database that can be opened or not. -/
def new (tableName : String) (reachable : Bool) : Store :=
  ⟨tableName, .missing, reachable, true, none, []⟩

/-- Whether there is a table whose entries statements can reach. -/
def hasTable (s : Store) : Bool := s.table.entries?.isSome

/-- Take a link into use. -/
def lend (s : Store) : Link × Store :=
  match s.links with
  | [] => (.fresh, s)
  | l :: links => (l, { s with links })

/-- Keep a link that is no longer in use, unless enough are kept already. -/
def takeBack (l : Link) (s : Store) : Store :=
  if s.links.length < Link.maxKept then { s with links := s.links ++ [l] } else s

/-- How the database takes the name of the table. -/
def tableUse (s : Store) : TableUse := .ofName s.tableName

/-- What creating the table makes of it, if that can be done. A table that goes by a shorter name is
not found under its own, so it cannot be created a second time. -/
def created? (s : Store) : Option Table :=
  match s.tableUse, s.table with
  | .builtIn, table => some table
  | .exact, .missing => some (.holding .empty)
  | .exact, table => some table
  | .shortened, .missing => some (.holding .empty)
  | .barred, .missing => some .barred
  | _, _ => none

/-- The store after a link was used to look at the table. -/
def look (s : Store) : Store :=
  let (l, s') := s.lend
  s'.takeBack (l.look s.hasTable)

/-- Create the table if there is none of its name. -/
def ensureTable : Attempt Store Unit := fun s =>
  if !s.reachable then (.error (.tableNotCreated s.tableName), s)
  else
    match s.created? with
    | some table => (.ok (), look { s with table })
    | none => (.error (.tableNotCreated s.tableName), s.look)

def dropTable (s : Store) : Store :=
  match s.tableUse with
  | .exact => { s with table := .missing }
  | _ => s

/-- The entries of the table of the name as it stands. -/
def named? (s : Store) : Option (KeyMap Bytes) :=
  match s.tableUse with
  | .exact => s.table.entries?
  | _ => none

/-- Close the store; the answer says whether it was open. -/
def close : Attempt Store Bool := fun s =>
  match s.closeFault with
  | some e => (.error e, s)
  | none => (.ok s.isOpen, { s with isOpen := false })

end Store
end RecordStore
