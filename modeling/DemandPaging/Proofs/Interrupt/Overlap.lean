import DemandPaging.Proofs.Interrupt.Nesting

/-!
# Overlapping critical sections

Locks and guards need not be given up in the reverse order. Each puts back the word that it took, so
the one that was acquired while nothing was held is the one that enables interrupts again, whether
or not something else is still held by then.
-/

namespace DemandPaging
namespace Interrupt

def Controller.masked (c : Controller) : UInt64 :=
  c.flags &&& ~~~c.mask

theorem Controller.masked_of_disabled {c : Controller} (h : c.enabled = false) :
    c.masked = c.flags := by
  have hzero : c.flags &&& c.mask = 0 := by
    simpa [enabled] using h
  rw [masked]
  rw [← UInt64.toBitVec_inj] at hzero ⊢
  apply BitVec.eq_of_getLsbD_eq
  intro i hi
  have hbit := congrArg (BitVec.getLsbD · i) hzero
  simp only [UInt64.toBitVec_and, UInt64.toBitVec_zero, BitVec.getLsbD_and,
    BitVec.getLsbD_zero] at hbit
  simp only [UInt64.toBitVec_and, UInt64.toBitVec_not, BitVec.getLsbD_and, BitVec.getLsbD_not, hi,
    decide_true, Bool.true_and]
  cases hword : c.flags.toBitVec.getLsbD i with
  | false => rfl
  | true =>
      rw [hword, Bool.true_and] at hbit
      rw [hbit]
      rfl

theorem Controller.masked_and_mask (c : Controller) : c.masked &&& c.mask = 0 := by
  rw [masked, UInt64.and_assoc, UInt64.and_comm (~~~c.mask), UInt64.and_not_self, UInt64.and_zero]

namespace Bank

def run (b : Bank) : List Request → Option Bank
  | [] => some b
  | r :: rest => (b.perform r).bind fun (_, next) => next.run rest

/-- No enabling bit is set while anything is held, and the word is the one of the given controller
while nothing is. -/
def MasksHolders (c : Controller) (b : Bank) : Prop :=
  (∀ holder word, b.kept? holder = some word → b.controller.enabled = false) ∧
    ((∀ holder, b.kept? holder = none) → b.controller.flags = c.flags)

variable {c : Controller} {b after : Bank} {r : Request} {reply : Reply} {holder : Holder}
  {requests : List Request} {values : List Int64}

/-! ## Runs -/

theorem run_append {first second : List Request} :
    b.run (first ++ second) = (b.run first).bind fun middle => middle.run second := by
  induction first generalizing b with
  | nil => rfl
  | cons r rest ih =>
      show (b.perform r).bind _ = ((b.perform r).bind _).bind _
      rw [Option.bind_assoc]
      congr
      funext step
      exact ih

theorem run_take_succ {n : Nat} (h : requests[n]? = some r) :
    b.run (requests.take (n + 1)) =
      (b.run (requests.take n)).bind fun middle => (middle.perform r).map Prod.snd := by
  rw [List.take_add_one, h, run_append]
  congr
  funext middle
  show (middle.perform r).bind _ = _
  cases middle.perform r <;> rfl

theorem run_induction {P : Bank → Prop} (hstart : P b)
    (hstep : ∀ (n : Nat) r reply middle next, requests[n]? = some r →
      b.run (requests.take n) = some middle → P middle → middle.perform r = some (reply, next) →
      P next) {n : Nat} (h : b.run (requests.take n) = some after) : P after := by
  induction n generalizing after with
  | zero =>
      cases h
      exact hstart
  | succ n ih =>
      cases hr : requests[n]? with
      | none =>
          rw [List.take_add_one, hr, Option.toList_none, List.append_nil] at h
          exact ih h
      | some r =>
          rw [run_take_succ hr] at h
          rcases Option.bind_eq_some_iff.mp h with ⟨middle, hmiddle, hlast⟩
          rcases Option.map_eq_some_iff.mp hlast with ⟨⟨reply, next⟩, hnext, rfl⟩
          exact hstep n r reply middle next hr hmiddle (ih hmiddle) hnext

/-! ## The words that occur -/

/-- The word is always the initial one or that one without its enabling bits, and so is each word
that is kept. -/
structure Bounded (c : Controller) (b : Bank) : Prop where
  registered : b.controller.registered = true
  mask : b.controller.mask = c.mask
  flags : b.controller.flags = c.flags ∨ b.controller.flags = c.masked
  kept : ∀ holder word, b.kept? holder = some word → word = c.flags ∨ word = c.masked

theorem kept?_new : (Bank.new c values).kept? holder = none := by
  cases holder with
  | lock i =>
      rw [kept?_lock_eq, Bank.new, List.getElem?_map]
      cases values[i]? <;> rfl
  | guard i => rfl

theorem bounded_new (hregistered : c.registered = true) : (Bank.new c values).Bounded c where
  registered := hregistered
  mask := rfl
  flags := Or.inl rfl
  kept := by
    intro holder word h
    rw [kept?_new] at h
    contradiction

theorem Bounded.ne_nothingSaved (k : b.Bounded c) (hword : c.flags ≠ nothingSaved) :
    b.controller.flags ≠ nothingSaved := by
  rcases k.flags with h | h
  · rwa [h]
  · rw [h]
    exact Controller.masked_ne_nothingSaved hword

theorem Bounded.flags_of_acquires (k : b.Bounded c) (h : b.Acquires holder after) :
    after.controller.flags = c.masked := by
  rw [h.controller, (Controller.disable_of_registered k.registered).2, k.mask]
  rcases k.flags with hflags | hflags
  · rw [hflags, Controller.masked]
  · rw [hflags, Controller.masked, UInt64.and_assoc, UInt64.and_self]

theorem Bounded.kept_of_acquires (k : b.Bounded c) (h : b.Acquires holder after) :
    after.kept? holder = some b.controller.flags := by
  rw [h.kept, if_pos rfl, (Controller.disable_of_registered k.registered).1]

theorem Bounded.flags_of_undoes (k : b.Bounded c) (hword : c.flags ≠ nothingSaved)
    (h : b.Undoes holder after) : b.kept? holder = some after.controller.flags := by
  rcases h.restored with ⟨word, hkept, hcontroller⟩
  have hsaved : word ≠ nothingSaved := by
    rcases k.kept holder word hkept with rfl | rfl
    · exact hword
    · exact Controller.masked_ne_nothingSaved hword
  rw [hcontroller, Controller.flags_restore k.registered hsaved, hkept]

theorem Bounded.flags_of_spares (k : b.Bounded c) (hword : c.flags ≠ nothingSaved)
    (h : b.Spares after) : after.controller.flags = b.controller.flags := by
  rcases h.controller with hsame | hback
  · rw [hsame]
  · rw [hback]
    exact Controller.flags_restore_disable _ (k.ne_nothingSaved hword)

theorem perform_mask (h : b.perform r = some (reply, after)) (hown : r.isForeign = false) :
    after.controller.registered = b.controller.registered ∧
      after.controller.mask = b.controller.mask := by
  rcases perform_cases h hown with ⟨_, -, -, hacquires⟩ | ⟨_, -, -, hundoes⟩ | ⟨-, -, hspares⟩
  · rw [hacquires.controller]
    exact ⟨Controller.registered_disable, Controller.mask_disable⟩
  · rcases hundoes.restored with ⟨_, -, hcontroller⟩
    rw [hcontroller]
    exact ⟨Controller.registered_restore, Controller.mask_restore⟩
  · rcases hspares.controller with hsame | hback
    · rw [hsame]
      exact ⟨rfl, rfl⟩
    · simp only [hback, Controller.registered_restore, Controller.mask_restore,
        Controller.registered_disable, Controller.mask_disable, and_self]

theorem Bounded.perform (k : b.Bounded c) (hword : c.flags ≠ nothingSaved)
    (h : b.perform r = some (reply, after)) (hown : r.isForeign = false) : after.Bounded c := by
  rcases perform_mask h hown with ⟨hregistered, hmask⟩
  refine ⟨hregistered.trans k.registered, hmask.trans k.mask, ?_, ?_⟩
  · rcases perform_cases h hown with ⟨_, -, -, hacquires⟩ | ⟨_, -, -, hundoes⟩ | ⟨-, -, hspares⟩
    · exact Or.inr (k.flags_of_acquires hacquires)
    · exact k.kept _ _ (k.flags_of_undoes hword hundoes)
    · rw [k.flags_of_spares hword hspares]
      exact k.flags
  · intro other word hkept
    rcases perform_cases h hown with ⟨holder, -, -, hacquires⟩ | ⟨holder, -, -, hundoes⟩ |
      ⟨-, -, hspares⟩
    · by_cases hother : other = holder
      · rw [hother, k.kept_of_acquires hacquires] at hkept
        cases hkept
        exact k.flags
      · rw [hacquires.kept, if_neg hother] at hkept
        exact k.kept other word hkept
    · rw [hundoes.kept] at hkept
      split at hkept
      · contradiction
      · exact k.kept other word hkept
    · rw [hspares.kept] at hkept
      exact k.kept other word hkept

/-! ## The outermost holder -/

/-- Nothing is held and the word is the initial one, or the enabling bits are clear and the initial
word is kept by one holder alone. -/
structure Enclosed (c : Controller) (b : Bank) : Prop where
  bounded : b.Bounded c
  outermost : ((∀ holder, b.kept? holder = none) ∧ b.controller.flags = c.flags) ∨
    ∃ outer, b.kept? outer = some c.flags ∧ b.controller.flags = c.masked ∧
      ∀ holder word, b.kept? holder = some word → holder ≠ outer → word = c.masked

theorem enclosed_new (hregistered : c.registered = true) : (Bank.new c values).Enclosed c where
  bounded := bounded_new hregistered
  outermost := Or.inl ⟨fun _ => kept?_new, rfl⟩

/-- As long as the holder of the initial word is given up last, the initial word comes back when
nothing is held any more, and not before. -/
theorem Enclosed.perform (e : b.Enclosed c) (hword : c.flags ≠ nothingSaved)
    (h : b.perform r = some (reply, after)) (hown : r.isForeign = false)
    (hlast : ∀ holder, r.undone = some holder → b.kept? holder = some c.flags →
      ∀ other word, b.kept? other = some word → other = holder) : after.Enclosed c := by
  have k := e.bounded
  refine ⟨k.perform hword h hown, ?_⟩
  rcases perform_cases h hown with ⟨holder, -, -, hacquires⟩ | ⟨holder, hundone, -, hundoes⟩ |
    ⟨-, -, hspares⟩
  · have hmasked := k.flags_of_acquires hacquires
    rcases e.outermost with ⟨hnone, hflags⟩ | ⟨outer, houter, hflags, hothers⟩
    · refine Or.inr ⟨holder, (k.kept_of_acquires hacquires).trans (by rw [hflags]), hmasked, ?_⟩
      intro other word hkept hother
      rw [hacquires.kept, if_neg hother, hnone] at hkept
      contradiction
    · have hapart : outer ≠ holder := by
        rintro rfl
        rw [hacquires.idle] at houter
        contradiction
      refine Or.inr ⟨outer, by rw [hacquires.kept, if_neg hapart, houter], hmasked, ?_⟩
      intro other word hkept hother
      by_cases hnew : other = holder
      · rw [hnew, k.kept_of_acquires hacquires, hflags] at hkept
        exact (Option.some.inj hkept).symm
      · rw [hacquires.kept, if_neg hnew] at hkept
        exact hothers other word hkept hother
  · have hback := k.flags_of_undoes hword hundoes
    rcases e.outermost with ⟨hnone, -⟩ | ⟨outer, houter, hflags, hothers⟩
    · rw [hnone] at hback
      contradiction
    · by_cases hsame : holder = outer
      · rw [hsame] at hback hundone hundoes
        refine Or.inl ⟨?_, (Option.some.inj (houter.symm.trans hback)).symm⟩
        intro other
        rw [hundoes.kept]
        split
        · rfl
        · rename_i hother
          cases hkept : b.kept? other with
          | none => rfl
          | some word => exact absurd (hlast outer hundone houter other word hkept) hother
      · refine Or.inr ⟨outer, by rw [hundoes.kept, if_neg (Ne.symm hsame), houter],
          hothers holder _ hback hsame, ?_⟩
        intro other word hkept hother
        rw [hundoes.kept] at hkept
        split at hkept
        · contradiction
        · exact hothers other word hkept hother
  · have hflags := k.flags_of_spares hword hspares
    simp only [hspares.kept, hflags]
    exact e.outermost

theorem Bounded.disabled (k : b.Bounded c) (h : b.controller.flags = c.masked) :
    b.controller.enabled = false := by
  unfold Controller.enabled
  rw [h, k.mask, c.masked_and_mask]
  rfl

theorem Enclosed.masksHolders (e : b.Enclosed c) : b.MasksHolders c := by
  rcases e.outermost with ⟨hnone, hflags⟩ | ⟨outer, houter, hflags, -⟩
  · refine ⟨?_, fun _ => hflags⟩
    intro holder word hkept
    rw [hnone] at hkept
    contradiction
  · refine ⟨fun _ _ _ => e.bounded.disabled hflags, ?_⟩
    intro hnone
    rw [hnone] at houter
    contradiction

/-- However holds overlap, interrupts stay disabled while anything is held, and the initial word is
back whenever nothing is, exactly if they were disabled at first or the holder that keeps the
initial word is never given up while something else is held. -/
theorem masked_throughout_iff (hregistered : c.registered = true) (hword : c.flags ≠ nothingSaved)
    (hown : ∀ r ∈ requests, r.isForeign = false) :
    (∀ n b, (Bank.new c values).run (requests.take n) = some b → b.MasksHolders c) ↔
      c.enabled = false ∨ ∀ n holder b, requests[n]? = some holder.undo →
        (Bank.new c values).run (requests.take n) = some b → b.kept? holder = some c.flags →
        ∀ other word, b.kept? other = some word → other = holder := by
  have hbounded : ∀ {n b}, (Bank.new c values).run (requests.take n) = some b → b.Bounded c := by
    intro n b hrun
    refine run_induction (bounded_new hregistered) ?_ hrun
    intro n r reply middle next hr _ k hnext
    exact k.perform hword hnext (hown r (List.mem_of_getElem? hr))
  constructor
  · intro hmasks
    refine Decidable.or_iff_not_imp_left.mpr ?_
    intro henabled n holder b hr hrun hkept other word hother
    apply Decidable.byContradiction
    intro hne
    -- to give up the holder brings the initial word back, and the other one is still held
    rcases perform_undo hkept with ⟨next, hnext⟩
    have hafter : (Bank.new c values).run (requests.take (n + 1)) = some next := by
      rw [run_take_succ hr, hrun, Option.bind_some, hnext]
      rfl
    rcases perform_cases hnext holder.isForeign_undo with ⟨_, hnone, -⟩ |
      ⟨undone, hundone, -, hundoes⟩ | ⟨hnone, -⟩
    · simp at hnone
    · rw [Holder.undone_undo] at hundone
      cases hundone
      have hflags := (hbounded hrun).flags_of_undoes hword hundoes
      rw [hkept, Option.some_inj] at hflags
      have hheld : next.kept? other = some word := by
        rw [hundoes.kept, if_neg hne, hother]
      apply henabled
      have hclear := (hmasks (n + 1) next hafter).1 other word hheld
      rwa [Controller.enabled, ← hflags, (hbounded hafter).mask] at hclear
    · simp at hnone
  · rintro (hdisabled | hlast) n b hrun
    · have k := hbounded hrun
      have hsame := c.masked_of_disabled hdisabled
      have hflags : b.controller.flags = c.flags := k.flags.elim id (·.trans hsame)
      exact ⟨fun _ _ _ => k.disabled (hflags.trans hsame.symm), fun _ => hflags⟩
    · refine (run_induction (P := Enclosed c) (enclosed_new hregistered) ?_ hrun).masksHolders
      intro n r reply middle next hr hmiddle e hnext
      refine e.perform hword hnext (hown r (List.mem_of_getElem? hr)) ?_
      intro holder hundone
      rw [r.eq_undo hundone] at hr
      exact hlast n holder middle hr hmiddle

def innerOutOfOrder : List Request :=
  [.acquire 0, .acquire 1, .tryAcquire 2, .release 1, .release 2, .release 0]

/-- The inner locks keep the word without its enabling bits, so their order does not matter. -/
theorem masked_out_of_order :
    (∃ last, (Bank.new ⟨0xff, 0x0f, true, []⟩ [1, 2, 3]).run innerOutOfOrder = some last ∧
        last.controller.flags = 0xff) ∧
      ∀ n b, (Bank.new ⟨0xff, 0x0f, true, []⟩ [1, 2, 3]).run (innerOutOfOrder.take n) = some b →
        b.MasksHolders ⟨0xff, 0x0f, true, []⟩ := by
  refine ⟨⟨_, rfl, rfl⟩, (masked_throughout_iff rfl (by decide) (by decide)).mpr (Or.inr ?_)⟩
  intro n holder b hr hrun hkept other word hother
  match n, holder, hr with
  | 3, .lock 1, _ =>
      cases hrun
      exact absurd (Option.some.inj hkept) (by decide)
  | 4, .lock 2, _ =>
      cases hrun
      exact absurd (Option.some.inj hkept) (by decide)
  | 5, .lock 0, _ =>
      cases hrun
      match other, hother with
      | .lock 0, _ => rfl
      | .lock 1, hother | .lock 2, hother | .lock (_ + 3), hother | .guard _, hother =>
          exact absurd hother nofun

def outermostFirst : List Request :=
  [.acquire 0, .acquire 1, .release 0]

/-- Then interrupts are enabled while the second lock is held, and when it is released they stay
disabled although no lock is held any more. -/
theorem not_masked_throughout :
    ∃ b last, (Bank.new ⟨1, 1, true, []⟩ [0, 0]).run outermostFirst = some b ∧
      b.kept? (.lock 1) = some 0 ∧ b.controller.enabled = true ∧
      b.run [.release 1] = some last ∧ (∀ holder, last.kept? holder = none) ∧
      last.controller.flags = 0 ∧ ¬ b.MasksHolders ⟨1, 1, true, []⟩ ∧
      ¬ last.MasksHolders ⟨1, 1, true, []⟩ := by
  refine ⟨_, _, rfl, rfl, rfl, rfl, ?hfree, rfl, ?hheld, ?hback⟩
  case hfree =>
    rintro ((_ | _ | i) | i) <;> rfl
  case hheld =>
    intro hmasks
    exact absurd (hmasks.1 (.lock 1) 0 rfl) (by decide)
  case hback =>
    intro hmasks
    refine absurd (hmasks.2 ?_) (by decide)
    rintro ((_ | _ | i) | i) <;> rfl

end Bank
end Interrupt
end DemandPaging
