import EdhocLab.Engine.Session

/-! # The sessions of an engine

Sessions are numbered and never removed.  Connection identifiers refer to them by number, and one
of them is the current one, so that a session may be found in several ways.
-/
namespace EdhocLab

structure SessionTable where
  sessions : List Session
  current : Nat
  byId : List (Bytes × Nat)
  current_lt : current < sessions.length
  byId_lt : ∀ entry ∈ byId, entry.2 < sessions.length

namespace SessionTable

/-- The number of a session. -/
abbrev Handle (table : SessionTable) := Fin table.sessions.length

/-- A table with one session, which nothing refers to but that it is current. -/
def single (s : Session) : SessionTable where
  sessions := [s]
  current := 0
  byId := []
  current_lt := by simp
  byId_lt := by simp

def get (table : SessionTable) (h : table.Handle) : Session := table.sessions.get h

def currentHandle (table : SessionTable) : table.Handle := ⟨table.current, table.current_lt⟩

/-- The session that messages are built and read for. -/
def currentSession (table : SessionTable) : Session := table.get table.currentHandle

/-- The session with a connection identifier. -/
def find? (table : SessionTable) (id : Bytes) : Option table.Handle :=
  match h : table.byId.find? fun entry => entry.1 == id with
  | some entry => some ⟨entry.2, table.byId_lt entry (List.mem_of_find?_eq_some h)⟩
  | none => none

/-- Replaces a session. -/
def set (table : SessionTable) (h : table.Handle) (s : Session) : SessionTable where
  sessions := table.sessions.set h s
  current := table.current
  byId := table.byId
  current_lt := by simpa using table.current_lt
  byId_lt := by simpa using table.byId_lt

/-- Makes a session the current one. -/
def setCurrent (table : SessionTable) (h : table.Handle) : SessionTable :=
  { table with current := h, current_lt := h.isLt }

/-- The reference of an identifier, in place of an older one. -/
def refer (id : Bytes) (number : Nat) : List (Bytes × Nat) → List (Bytes × Nat)
  | [] => [(id, number)]
  | entry :: rest => if entry.1 = id then (id, number) :: rest else entry :: refer id number rest

theorem mem_refer {id : Bytes} {number : Nat} {entries : List (Bytes × Nat)} {entry : Bytes × Nat}
    (h : entry ∈ refer id number entries) : entry = (id, number) ∨ entry ∈ entries := by
  induction entries with
  | nil => simpa [refer] using h
  | cons e es ih =>
    by_cases he : e.1 = id
    · simp only [refer, he, if_true, List.mem_cons] at h
      rcases h with h | h
      · exact .inl h
      · exact .inr (by simp [h])
    · simp only [refer, he, if_false, List.mem_cons] at h
      rcases h with h | h
      · exact .inr (by simp [h])
      · rcases ih h with h | h
        · exact .inl h
        · exact .inr (by simp [h])

/-- Lets a connection identifier refer to a session. -/
def register (table : SessionTable) (id : Bytes) (h : table.Handle) : SessionTable :=
  { table with
    byId := refer id h table.byId
    byId_lt := fun entry he => by
      rcases mem_refer he with rfl | he
      · exact h.isLt
      · exact table.byId_lt entry he }

/-- Adds a session, makes it current and lets a connection identifier refer to it. -/
def add (table : SessionTable) (id : Bytes) (s : Session) : SessionTable where
  sessions := table.sessions ++ [s]
  current := table.sessions.length
  byId := refer id table.sessions.length table.byId
  current_lt := by simp
  byId_lt := fun entry he => by
    rcases mem_refer he with rfl | he
    · simp
    · have := table.byId_lt entry he
      simp only [List.length_append, List.length_cons, List.length_nil]
      omega

end SessionTable

end EdhocLab
