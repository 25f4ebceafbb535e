import GuardedRows.Text
import GuardedRows.Uuid

/-!
# Transaction ids

A transaction belongs to one of two instances and is told apart by a UUID. The text of its
id is also the row that holds its record.
-/

set_option autoImplicit false

namespace GuardedRows.Tx

inductive Instance where
  | system
  | user
  deriving DecidableEq

namespace Instance

def systemNamespace : String := "system"

def text : Instance → String
  | .system => "META"
  | .user => "USER"

def parse (text : String) : Except Malformed Instance :=
  if text = "META" then .ok .system
  else if text = "USER" then .ok .user
  else .error (.instanceName text)

@[simp] theorem parse_text (home : Instance) : parse home.text = .ok home := by
  cases home <;> rfl

/-- The instance for a namespace, or for a table whose name starts with its namespace and
a dot. -/
def ofName (name : String) : Instance :=
  let namespaceName :=
    match Text.cutFirst '.' name.toList with
    | some (before, _) => String.ofList before
    | none => name
  if namespaceName = systemNamespace then .system else .user

def rank : Instance → Nat
  | .system => 0
  | .user => 1

instance : Ord Instance := ⟨compareOn rank⟩

instance : Std.TransOrd Instance := inferInstanceAs (Std.TransCmp (compareOn Instance.rank))

instance : Std.LawfulEqOrd Instance where
  eq_of_compare {left right} := by cases left <;> cases right <;> decide

end Instance

structure Id where
  home : Instance
  uuid : Uuid
  deriving DecidableEq

namespace Id

instance : Ord Id := ⟨compareLex (compareOn home) (compareOn uuid)⟩

instance : Std.TransOrd Id :=
  inferInstanceAs (Std.TransCmp (compareLex (compareOn Id.home) (compareOn Id.uuid)))

instance : Std.LawfulEqOrd Id where
  eq_of_compare {left right} order := by
    obtain ⟨home, uuid⟩ := compareLex_eq_eq.mp order
    cases left
    cases right
    cases (Std.LawfulEqOrd.eq_of_compare home : _ = _)
    cases (Std.LawfulEqOrd.eq_of_compare uuid : _ = _)
    rfl

def leading : String := "FATE"

def textIn (format : Uuid.Format) (id : Id) : String :=
  leading ++ ":" ++ id.home.text ++ ":" ++ format.text id.uuid

def text (id : Id) : String := id.textIn Uuid.format

/-- Reads an id. The UUID is everything after the second colon, so it may hold colons of
its own, and it is read before the instance. -/
def parseIn (format : Uuid.Format) (text : String) : Except Malformed Id :=
  match Text.cutFirst ':' text.toList with
  | none => .error (.transactionId text)
  | some (word, rest) =>
      match Text.cutFirst ':' rest with
      | none => .error (.transactionId text)
      | some (home, uuid) =>
          if String.ofList word = leading then
            match format.parse? (String.ofList uuid) with
            | none => .error (.uuid text)
            | some uuid => (Instance.parse (String.ofList home)).map (⟨·, uuid⟩)
          else .error (.transactionId text)

def parse (text : String) : Except Malformed Id := parseIn Uuid.format text

theorem parseIn_of_reads {format : Uuid.Format} {spelled : String} {id : Id}
    (reads : format.parse? spelled = some id.uuid) :
    parseIn format (leading ++ ":" ++ id.home.text ++ ":" ++ spelled) = .ok id := by
  have word : Text.cutFirst ':' (leading ++ ":" ++ id.home.text ++ ":" ++ spelled).toList =
      some (leading.toList, id.home.text.toList ++ ':' :: spelled.toList) :=
    Text.cutFirst_eq_some_iff.mpr ⟨by simp, by decide⟩
  have home : Text.cutFirst ':' (id.home.text.toList ++ ':' :: spelled.toList) =
      some (id.home.text.toList, spelled.toList) :=
    Text.cutFirst_eq_some_iff.mpr ⟨rfl, by cases id.home <;> decide⟩
  unfold parseIn
  simp only [word, home, String.ofList_toList, ↓reduceIte, reads, Instance.parse_text]
  rfl

@[simp] theorem parse_text (id : Id) : parse id.text = .ok id :=
  parseIn_of_reads (Uuid.parse?_text id.uuid)

end Id

end GuardedRows.Tx
