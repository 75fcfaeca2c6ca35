import EdhocLab.Engine.Session
import EdhocLab.Proofs.Oscore.Derivation

/-! # Installed contexts

The context of a session always exists, since everything it derives is short.  Installing it comes
to one lookup later, and changes nothing of a session but its flag and counter.
-/
namespace EdhocLab

open Handshake

namespace Oscore

namespace Store

variable (store : Store) (uri : String) (context : Context)

@[simp] theorem get?_insert_self : (store.insert uri context).get? uri = some context := by
  induction store with
  | nil => simp [insert, get?]
  | cons entry rest ih =>
    by_cases h : entry.1 = uri
    · simp [insert, h, get?]
    · have hne : (uri == entry.1) = false := by simpa using Ne.symm h
      rw [insert, if_neg h, get?, List.lookup_cons, hne]
      exact ih

end Store

end Oscore

namespace Session

variable (settings : Settings) (m : Material)

/-- A context has what derives from the exporter of a session, its suite and its identifiers. -/
def Matches (context : Oscore.Context) : Prop :=
  ∃ secret salt, m.exporter 0 [] m.suite.appAead.keyLength = .ok secret ∧
    m.exporter 1 [] 8 = .ok salt ∧
    context.DerivesFrom secret salt m.suite.appAead (senderId settings m) (recipientId settings m)

/-- Every material has its context. -/
theorem context_eq_ok : ∃ ctx, context settings m = .ok ctx ∧ Matches settings m ctx := by
  have hkey : 0 ≤ (m.suite.appAead.keyLength : Int) := Int.natCast_nonneg _
  obtain ⟨secret, hsecret⟩ := isOk_iff.mp (KeySchedule.exporter_isOk (show (0 : Int) ≤ 0 by decide)
    hkey (KeySchedule.keyLength_le m.suite.appAead) m.phase3.prkExporter [])
  obtain ⟨salt, hsalt⟩ := isOk_iff.mp (KeySchedule.exporter_isOk (show (0 : Int) ≤ 1 by decide)
    (show (0 : Int) ≤ 8 by decide) (by decide) m.phase3.prkExporter [])
  obtain ⟨ctx, hctx, hderives⟩ := Oscore.Context.derive_eq_ok secret salt m.suite.appAead
    (senderId settings m) (recipientId settings m)
  refine ⟨(ctx.withWindow settings.replayWindow).withMaxUnfragmentedSize
    settings.maxUnfragmentedSize, ?_, secret, salt, hsecret, hsalt, ?_⟩
  · simp [context, Material.exporter, hsecret, hsalt, hctx]
  · exact ⟨hderives.1, hderives.2, hderives.3, hderives.4, hderives.5, hderives.6⟩

variable (s : Session) (uri : String) (store : Oscore.Store)

theorem setup_value : (s.setup settings uri store).value =
    if s.oscoreReady then (s, store)
    else match context settings s.material with
      | .ok context =>
        ({ s with oscoreReady := true, derivations := s.derivations + 1 }, store.insert uri context)
      | .error _ => ({ s with derivations := s.derivations + 1 }, store) := by
  unfold setup
  split
  · rfl
  · cases context settings s.material with
    | error _ => rfl
    | ok context =>
      dsimp only
      split <;> rfl

@[simp] theorem setup_oscoreReady : (s.setup settings uri store).value.1.oscoreReady = true := by
  obtain ⟨ctx, hctx, -⟩ := context_eq_ok settings s.material
  rw [setup_value, hctx]
  split
  · assumption
  · rfl

/-- A session that is not set up installs its context, which matches its material. -/
theorem setup_of_not_ready (h : s.oscoreReady = false) :
    ∃ ctx, (s.setup settings uri store).value.2.get? uri = some ctx ∧
      Matches settings s.material ctx := by
  obtain ⟨ctx, hctx, hmatches⟩ := context_eq_ok settings s.material
  rw [setup_value, h, hctx]
  exact ⟨ctx, by simp, hmatches⟩

/-- A session that is set up installs nothing. -/
theorem setup_of_ready (h : s.oscoreReady = true) :
    (s.setup settings uri store).value = (s, store) := by
  rw [setup_value, h]
  rfl

@[simp] theorem setup_role : (s.setup settings uri store).value.1.role = s.role := by
  rw [setup_value]
  split
  · rfl
  · split <;> rfl

@[simp] theorem setup_material : (s.setup settings uri store).value.1.material = s.material := by
  rw [setup_value]
  split
  · rfl
  · split <;> rfl

theorem setup_connectionId :
    (s.setup settings uri store).value.1.material.connectionId = s.material.connectionId := by
  rw [setup_material]

/-- The context of placeholders is always installed. -/
theorem setupPlaceholder_value {ctx : Oscore.Context} (h : context settings s.material = .ok ctx) :
    (s.setupPlaceholder settings uri store).value =
      ({ s with oscoreReady := false, derivations := s.derivations + 1 }, store.insert uri ctx) := by
  have hsetup : (Session.setup { s with oscoreReady := false } settings uri store).value =
      ({ s with oscoreReady := true, derivations := s.derivations + 1 }, store.insert uri ctx) := by
    rw [setup_value]
    simp only [h]
    rfl
  change ({ (Session.setup { s with oscoreReady := false } settings uri store).value.1 with
    oscoreReady := false },
    (Session.setup { s with oscoreReady := false } settings uri store).value.2) = _
  rw [hsetup]

@[simp] theorem setupPlaceholder_role :
    (s.setupPlaceholder settings uri store).value.1.role = s.role :=
  setup_role ..

@[simp] theorem setupPlaceholder_material :
    (s.setupPlaceholder settings uri store).value.1.material = s.material :=
  setup_material ..

theorem setupPlaceholder_connectionId :
    (s.setupPlaceholder settings uri store).value.1.material.connectionId =
      s.material.connectionId :=
  setup_connectionId ..

end Session

end EdhocLab
