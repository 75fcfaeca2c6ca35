import EdhocLab.Engine.SessionTable

/-! # Lookups in a session table

Connection identifiers are looked up by the number of the session they refer to, which stays the
same however sessions are replaced.  New entries shadow nothing but their own identifier.
-/
namespace EdhocLab.SessionTable

variable (table : SessionTable) (id other : Bytes) (s : Session)

/-- The number of the session that an identifier refers to. -/
def number? : Option Nat := (table.byId.find? fun entry => entry.1 == id).map Prod.snd

variable {table id} in
theorem find?_eq_some_iff {h : table.Handle} :
    table.find? id = some h ↔ table.number? id = some h.val := by
  unfold find? number?
  split
  · rename_i entry hentry
    simp [hentry, Fin.ext_iff]
  · rename_i hnone
    simp [hnone]

@[simp] theorem number?_set (h : table.Handle) : (table.set h s).number? id = table.number? id := rfl

theorem find?_refer (number : Nat) (entries : List (Bytes × Nat)) :
    ((refer id number entries).find? fun entry => entry.1 == other).map Prod.snd =
      if other = id then some number
      else (entries.find? fun entry => entry.1 == other).map Prod.snd := by
  induction entries with
  | nil =>
    by_cases h : other = id
    · simp [refer, h]
    · simp [refer, h, Ne.symm h]
  | cons entry entries ih =>
    by_cases he : entry.1 = id
    · by_cases h : other = id
      · simp [refer, he, h]
      · simp [refer, he, h, Ne.symm h]
    · by_cases ho : entry.1 = other
      · have h : ¬ other = id := fun h => he (ho.trans h)
        simp [refer, ho, h]
      · rw [refer, if_neg he, List.find?_cons_of_neg (by simpa using ho),
          List.find?_cons_of_neg (by simpa using ho), ih]

theorem number?_register (h : table.Handle) :
    (table.register id h).number? other = if other = id then some h.val else table.number? other :=
  find?_refer id other h.val table.byId

theorem number?_add : (table.add id s).number? other =
    if other = id then some table.sessions.length else table.number? other :=
  find?_refer id other table.sessions.length table.byId

@[simp] theorem sessions_set (h : table.Handle) :
    (table.set h s).sessions = table.sessions.set h s := rfl

@[simp] theorem current_set (h : table.Handle) : (table.set h s).current = table.current := rfl

@[simp] theorem sessions_register (h : table.Handle) :
    (table.register id h).sessions = table.sessions := rfl

@[simp] theorem current_register (h : table.Handle) :
    (table.register id h).current = table.current := rfl

@[simp] theorem sessions_add : (table.add id s).sessions = table.sessions ++ [s] := rfl

@[simp] theorem current_add : (table.add id s).current = table.sessions.length := rfl

theorem currentSession_eq :
    table.currentSession = table.sessions.get ⟨table.current, table.current_lt⟩ := rfl

@[simp] theorem currentSession_add : (table.add id s).currentSession = s := by
  simp [currentSession_eq]

@[simp] theorem currentSession_set_current :
    (table.set table.currentHandle s).currentSession = s := by
  simp [currentSession_eq, currentHandle]

theorem currentSession_set_of_ne {h : table.Handle} (hne : h.val ≠ table.current) :
    (table.set h s).currentSession = table.currentSession := by
  simp [currentSession_eq, List.getElem_set_ne hne]

@[simp] theorem currentSession_register (h : table.Handle) :
    (table.register id h).currentSession = table.currentSession := rfl

variable {table s} in
theorem mem_sessions_set {h : table.Handle} {t : Session} (ht : t ∈ (table.set h s).sessions) :
    t = s ∨ t ∈ table.sessions := by
  rw [sessions_set] at ht
  rcases List.mem_or_eq_of_mem_set ht with hmem | heq
  · exact .inr hmem
  · exact .inl heq

theorem get_mem (h : table.Handle) : table.get h ∈ table.sessions := List.getElem_mem h.isLt

theorem currentSession_mem : table.currentSession ∈ table.sessions := List.getElem_mem table.current_lt

/-- The only session of a table is replaced like one in any other table with its identifiers. -/
theorem eq_set {table table' : SessionTable} (hlength : table.sessions.length = 1)
    (hlength' : table'.sessions.length = 1) (hbyId : table'.byId = table.byId) :
    table' = table.set table.currentHandle table'.currentSession := by
  obtain ⟨s, hs⟩ := List.length_eq_one_iff.mp hlength
  obtain ⟨s', hs'⟩ := List.length_eq_one_iff.mp hlength'
  obtain ⟨sessions, current, byId, hcurrent, _⟩ := table
  obtain ⟨sessions', current', byId', hcurrent', _⟩ := table'
  cases hs
  cases hs'
  cases hbyId
  obtain rfl : current = 0 := Nat.lt_one_iff.mp hcurrent
  obtain rfl : current' = 0 := Nat.lt_one_iff.mp hcurrent'
  rfl

end EdhocLab.SessionTable
