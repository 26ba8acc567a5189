import MailQueue.Value.Basic

/-!
# Tables under construction

A settings text states its tables in pieces: a header opens one, an assignment fills the one opened
last, and both name tables on the way that were never stated. `Node` remembers how a table came to
be, because that decides what may still be added to it.

* `put` makes an assignment: each key once, and a table that a header has stated is not entered by
  a dotted key;
* `openTable` and `openItem` are the two kinds of header;
* `toValue` forgets how the tables came to be.
-/

namespace MailQueue.Toml

/-- How a table came to be. -/
inductive Origin where
  /-- By a header of its own. -/
  | stated
  /-- On the way to the table of a header. -/
  | implied
  /-- On the way to the key of an assignment. -/
  | dotted
  deriving DecidableEq, Repr

/-- What a key stands for. -/
inductive Node where
  | leaf (v : Value)
  | table (origin : Origin) (entries : List (String × Node))
  /-- A list of tables, the one opened last apart from those before it, latest first. -/
  | tables (last : List (String × Node)) (earlier : List (List (String × Node)))

instance : Inhabited Node := ⟨.leaf .null⟩

namespace Node

/-- Sets the value of `key` below the tables of `path`. Tables on the path that do not exist are
made; a value or a stated table on the path is refused, and the last table of the path has to be one
that an assignment made. -/
def put (path : List String) (key : String) (v : Value) (es : Entries Node) :
    Option (Entries Node) :=
  match path with
  | [] => if (es.get? key).isSome then none else some (es.put key (.leaf v))
  | k :: path =>
    match es.get? k with
    | none => return es.put k (.table .dotted (← put path key v []))
    | some (.leaf _) => none
    | some (.table .stated _) => none
    | some (.table .implied inner) =>
      if path.isEmpty then none
      else return es.put k (.table .implied (← put path key v inner))
    | some (.table .dotted inner) => return es.put k (.table .dotted (← put path key v inner))
    | some (.tables last earlier) =>
      if path.isEmpty then none else return es.put k (.tables (← put path key v last) earlier)

/-- Does `f` to the entries of the table at `path`, of a list of tables the last; tables that do
not exist are made. A value on the path is refused. -/
def within (f : Entries Node → Option (Entries Node)) (path : List String) (es : Entries Node) :
    Option (Entries Node) :=
  match path with
  | [] => f es
  | k :: path =>
    match es.get? k with
    | none => return es.put k (.table .implied (← within f path []))
    | some (.leaf _) => none
    | some (.table origin inner) => return es.put k (.table origin (← within f path inner))
    | some (.tables last earlier) => return es.put k (.tables (← within f path last) earlier)

/-- States the table of a header: a new one, or one that was only implied. -/
def openTable (key : String) (es : Entries Node) : Option (Entries Node) :=
  match es.get? key with
  | none => some (es.put key (.table .stated []))
  | some (.table .implied inner) => some (es.put key (.table .stated inner))
  | some _ => none

/-- Adds an empty table to the list of tables of a header. -/
def openItem (key : String) (es : Entries Node) : Option (Entries Node) :=
  match es.get? key with
  | none => some (es.put key (.tables [] []))
  | some (.tables last earlier) => some (es.put key (.tables [] (last :: earlier)))
  | some _ => none

mutual

def toValue : Node → Value
  | leaf v => v
  | table _ es => .object (entriesValue es)
  | tables last earlier => .list (tablesValue earlier [.object (entriesValue last)])

def entriesValue : List (String × Node) → List (String × Value)
  | [] => []
  | (k, n) :: rest => (k, toValue n) :: entriesValue rest

/-- The values of tables, latest first, in front of those of later tables. -/
def tablesValue : List (List (String × Node)) → List Value → List Value
  | [], later => later
  | es :: rest, later => tablesValue rest (.object (entriesValue es) :: later)

end

end Node

end MailQueue.Toml
