import DemandPaging.Interrupt.Bank

/-!
# Nested critical sections

Locks and guards may be acquired while others are held. Each keeps the interrupt word that it took,
and as long as they are given up in the reverse order, each finds the word as it left it and puts
back the one from before. Requests that fail and guards among the locks make no difference.
-/

namespace DemandPaging
namespace Interrupt

/-! ## What is held -/

inductive Holder where
  | lock (i : Nat)
  | guard (i : Nat)
  deriving DecidableEq, Repr

def Holder.undo : Holder → Request
  | lock i => .release i
  | guard i => .closeGuard i

def Request.acquired : Request → Reply → Option Holder
  | .acquire i, .value _ => some (.lock i)
  | .tryAcquire i, .value _ => some (.lock i)
  | .openGuard, .guard i => some (.guard i)
  | _, _ => none

def Request.undone : Request → Option Holder
  | .release i => some (.lock i)
  | .closeGuard i => some (.guard i)
  | _ => none

def Request.isForeign : Request → Bool
  | .setFlags _ => true
  | _ => false

theorem Request.eq_undo {r : Request} {holder : Holder} (h : r.undone = some holder) :
    r = holder.undo := by
  cases r with
  | release i =>
      cases h
      rfl
  | closeGuard i =>
      cases h
      rfl
  | acquire | tryAcquire | add | isHeld | openGuard | wasEnabled | setFlags => contradiction

@[simp]
theorem Holder.undone_undo (holder : Holder) : holder.undo.undone = some holder := by
  cases holder <;> rfl

@[simp]
theorem Holder.isForeign_undo (holder : Holder) : holder.undo.isForeign = false := by
  cases holder <;> rfl

namespace SpinLock

/-- The word that a lock keeps while it is held. -/
def kept? (l : SpinLock Int64) : Option UInt64 :=
  if l.held then some l.saved else none

theorem tryAcquire_of_held {l : SpinLock Int64} (c : Controller) (h : l.held = true) :
    l.tryAcquire c = (false, l, c.disable.2.restore c.disable.1) :=
  if_pos h

theorem tryAcquire_of_free {l : SpinLock Int64} (c : Controller) (h : l.held = false) :
    l.tryAcquire c = (true, { l with held := true, saved := c.disable.1 }, c.disable.2) :=
  if_neg (Bool.eq_false_iff.mp h)

end SpinLock

def Bank.kept? (b : Bank) : Holder → Option UInt64
  | .lock i => b.locks[i]?.bind SpinLock.kept?
  | .guard i => b.guards[i]?.join

namespace Controller

variable {c : Controller} {saved : UInt64}

@[simp]
theorem registered_disable : c.disable.2.registered = c.registered := by
  unfold disable
  split <;> rfl

@[simp]
theorem mask_disable : c.disable.2.mask = c.mask := by
  unfold disable
  split <;> rfl

@[simp]
theorem registered_restore : (c.restore saved).registered = c.registered := by
  unfold restore
  split
  · rfl
  · split <;> rfl

@[simp]
theorem mask_restore : (c.restore saved).mask = c.mask := by
  unfold restore
  split
  · rfl
  · split <;> rfl

theorem disable_of_registered (h : c.registered = true) :
    c.disable.1 = c.flags ∧ c.disable.2.flags = c.flags &&& ~~~c.mask := by
  unfold disable
  rw [if_pos h]
  exact ⟨rfl, rfl⟩

theorem flags_restore (h : c.registered = true) (hsaved : saved ≠ nothingSaved) :
    (c.restore saved).flags = saved := by
  unfold restore
  rw [if_neg hsaved, if_pos h]

/-- A word is disabled to another one than the reserved word, unless it is the reserved word. -/
theorem masked_ne_nothingSaved {word mask : UInt64} (h : word ≠ nothingSaved) :
    word &&& ~~~mask ≠ nothingSaved := by
  intro hall
  apply h
  rw [← UInt64.toBitVec_inj] at hall ⊢
  apply BitVec.eq_of_getLsbD_eq
  intro i hi
  have hbit := congrArg (BitVec.getLsbD · i) hall
  simp only [UInt64.toBitVec_and, BitVec.getLsbD_and] at hbit
  have hone : nothingSaved.toBitVec.getLsbD i = true := by
    have hones : nothingSaved.toBitVec = BitVec.allOnes 64 := by decide
    rw [hones, BitVec.getLsbD_allOnes]
    exact decide_eq_true hi
  rw [hone] at hbit ⊢
  exact (Bool.and_eq_true_iff.mp hbit).1

end Controller

/-! ## What one request does -/

namespace Bank

variable {b after : Bank} {r : Request} {reply : Reply} {holder other : Holder} {i : Nat}

/-- What is kept after something was acquired, with the interrupt word of before. -/
structure Acquires (b : Bank) (holder : Holder) (after : Bank) : Prop where
  idle : b.kept? holder = none
  kept : ∀ other, after.kept? other =
    if other = holder then some b.controller.disable.1 else b.kept? other
  controller : after.controller = b.controller.disable.2

/-- What is kept after something was given up, with the word that it kept put back. -/
structure Undoes (b : Bank) (holder : Holder) (after : Bank) : Prop where
  kept : ∀ other, after.kept? other = if other = holder then none else b.kept? other
  restored : ∃ word, b.kept? holder = some word ∧ after.controller = b.controller.restore word

/-- A request that acquires nothing leaves what is kept alone. If it touched the word, it put it
back. -/
structure Spares (b after : Bank) : Prop where
  kept : ∀ other, after.kept? other = b.kept? other
  controller : after.controller = b.controller ∨
    after.controller = b.controller.disable.2.restore b.controller.disable.1

theorem kept?_lock_eq : b.kept? (.lock i) = b.locks[i]?.bind SpinLock.kept? := rfl

theorem kept?_guard_eq : b.kept? (.guard i) = b.guards[i]?.join := rfl

theorem kept?_put {l old : SpinLock Int64} {c : Controller} (hold : b.locks[i]? = some old) :
    (b.put i l c).kept? other = if other = .lock i then l.kept? else b.kept? other := by
  rcases List.getElem?_eq_some_iff.mp hold with ⟨hi, -⟩
  cases other with
  | lock j =>
      by_cases hj : j = i
      · rw [hj, if_pos rfl, kept?_lock_eq, put, List.getElem?_set_self hi]
        rfl
      · rw [if_neg (by simpa using hj), kept?_lock_eq, kept?_lock_eq, put,
          List.getElem?_set_ne (Ne.symm hj)]
  | guard j => rfl

theorem kept?_lock {l : SpinLock Int64} (hlock : b.locks[i]? = some l) :
    b.kept? (.lock i) = l.kept? := by
  rw [kept?_lock_eq, hlock]
  rfl

theorem exists_held {word : UInt64} (h : b.kept? (.lock i) = some word) :
    ∃ l, b.locks[i]? = some l ∧ l.held = true := by
  rw [kept?_lock_eq] at h
  rcases Option.bind_eq_some_iff.mp h with ⟨l, hl, hkept⟩
  refine ⟨l, hl, ?_⟩
  unfold SpinLock.kept? at hkept
  split at hkept
  · assumption
  · contradiction

theorem acquires_put {l : SpinLock Int64} (hlock : b.locks[i]? = some l) (hfree : l.held = false) :
    b.Acquires (.lock i)
      (b.put i { l with held := true, saved := b.controller.disable.1 }
        b.controller.disable.2) where
  idle := by
    rw [kept?_lock hlock, SpinLock.kept?, hfree]
    rfl
  kept := fun _ => kept?_put hlock
  controller := rfl

theorem spares_put {l new : SpinLock Int64} {c : Controller} (hlock : b.locks[i]? = some l)
    (hkept : new.kept? = l.kept?) (hcontroller : c = b.controller ∨
      c = b.controller.disable.2.restore b.controller.disable.1) : b.Spares (b.put i new c) where
  kept := by
    intro other
    rw [kept?_put hlock]
    split
    · rename_i hother
      rw [hother, kept?_lock hlock, hkept]
    · rfl
  controller := hcontroller

theorem kept?_openGuard {c : Controller} {word : UInt64} :
    kept? { b with controller := c, guards := b.guards ++ [some word] } other =
      if other = .guard b.guards.length then some word else b.kept? other := by
  cases other with
  | lock j => rfl
  | guard j =>
      rw [kept?_guard_eq, kept?_guard_eq]
      by_cases hj : j = b.guards.length
      · rw [hj, if_pos rfl, List.getElem?_concat_length]
        rfl
      · rw [if_neg (by simpa using hj)]
        by_cases hlt : j < b.guards.length
        · rw [List.getElem?_append_left hlt]
        · have hlength : (b.guards ++ [some word]).length ≤ j := by
            rw [List.length_append, List.length_singleton]
            omega
          rw [List.getElem?_eq_none hlength, List.getElem?_eq_none (by omega)]

theorem kept?_closeGuard {c : Controller} :
    kept? { b with controller := c, guards := b.guards.set i none } other =
      if other = .guard i then none else b.kept? other := by
  cases other with
  | lock j => rfl
  | guard j =>
      rw [kept?_guard_eq, kept?_guard_eq]
      by_cases hj : j = i
      · rw [hj, if_pos rfl, List.getElem?_set_self']
        cases b.guards[i]? <;> rfl
      · rw [if_neg (by simpa using hj), List.getElem?_set_ne (Ne.symm hj)]

theorem perform_cases (h : b.perform r = some (reply, after)) (hown : r.isForeign = false) :
    (∃ holder, r.undone = none ∧ r.acquired reply = some holder ∧ b.Acquires holder after) ∨
      (∃ holder, r.undone = some holder ∧ reply = .done ∧ b.Undoes holder after) ∨
      r.undone = none ∧ r.acquired reply = none ∧ b.Spares after := by
  cases r with
  | acquire i =>
      simp only [perform, SpinLock.acquire?, Option.bind_eq_bind, Option.bind_eq_some_iff] at h
      rcases h with ⟨l, hl, taken, htaken, heq⟩
      split at htaken
      · contradiction
      · rename_i hfree
        cases htaken
        cases heq
        exact Or.inl ⟨.lock i, rfl, rfl, acquires_put hl (Bool.eq_false_iff.mpr hfree)⟩
  | tryAcquire i =>
      simp only [perform, Option.bind_eq_bind, Option.bind_eq_some_iff] at h
      rcases h with ⟨l, hl, heq⟩
      cases hheld : l.held with
      | true =>
          simp only [SpinLock.tryAcquire_of_held _ hheld] at heq
          cases heq
          exact Or.inr (Or.inr ⟨rfl, rfl, spares_put hl rfl (Or.inr rfl)⟩)
      | false =>
          simp only [SpinLock.tryAcquire_of_free _ hheld] at heq
          cases heq
          exact Or.inl ⟨.lock i, rfl, rfl, acquires_put hl hheld⟩
  | add i amount =>
      simp only [perform, Option.bind_eq_bind, Option.bind_eq_some_iff] at h
      rcases h with ⟨l, hl, heq⟩
      split at heq
      · cases heq
        exact Or.inr (Or.inr ⟨rfl, rfl, spares_put hl rfl (Or.inl rfl)⟩)
      · contradiction
  | release i =>
      simp only [perform, SpinLock.release, Option.bind_eq_bind, Option.bind_eq_some_iff] at h
      rcases h with ⟨l, hl, heq⟩
      split at heq
      · rename_i hheld
        cases heq
        refine Or.inr (Or.inl ⟨.lock i, rfl, rfl, fun _ => kept?_put hl, l.saved, ?_, rfl⟩)
        rw [kept?_lock hl, SpinLock.kept?, if_pos hheld]
      · contradiction
  | isHeld i =>
      simp only [perform, Option.bind_eq_bind, Option.bind_eq_some_iff] at h
      rcases h with ⟨l, hl, heq⟩
      cases heq
      exact Or.inr (Or.inr ⟨rfl, rfl, fun _ => rfl, Or.inl rfl⟩)
  | openGuard =>
      cases h
      have hidle : b.kept? (.guard b.guards.length) = none := by
        rw [kept?_guard_eq, List.getElem?_eq_none (Nat.le_refl _)]
        rfl
      exact Or.inl ⟨.guard b.guards.length, rfl, rfl, hidle, fun _ => kept?_openGuard, rfl⟩
  | wasEnabled i =>
      simp only [perform, Option.bind_eq_bind, Option.bind_eq_some_iff] at h
      rcases h with ⟨_, _, _, _, heq⟩
      cases heq
      exact Or.inr (Or.inr ⟨rfl, rfl, fun _ => rfl, Or.inl rfl⟩)
  | closeGuard i =>
      simp only [perform, Option.bind_eq_bind, Option.bind_eq_some_iff] at h
      rcases h with ⟨guard, hguard, word, rfl, heq⟩
      cases heq
      have hkept : b.kept? (.guard i) = some word := by
        rw [kept?_guard_eq, hguard]
        rfl
      exact Or.inr (Or.inl ⟨.guard i, rfl, rfl, fun _ => kept?_closeGuard, word, hkept, rfl⟩)
  | setFlags word => contradiction

theorem perform_undo {word : UInt64} (h : b.kept? holder = some word) :
    ∃ after, b.perform holder.undo = some (.done, after) := by
  cases holder with
  | lock i =>
      rcases exists_held h with ⟨l, hl, hheld⟩
      refine ⟨b.put i (l.release b.controller).1 (l.release b.controller).2, ?_⟩
      simp only [Holder.undo, perform, hl, Option.bind_eq_bind, Option.bind_some, if_pos hheld]
      rfl
  | guard i =>
      have hguard : b.guards[i]? = some (some word) := Option.join_eq_some_iff.mp h
      refine ⟨{ b with controller := b.controller.restore word, guards := b.guards.set i none }, ?_⟩
      simp only [Holder.undo, perform, hguard, Option.bind_eq_bind, Option.bind_some]
      rfl

theorem perform_wasEnabled {word : UInt64} (h : b.kept? (.guard i) = some word) :
    b.perform (.wasEnabled i) = some (.truth (b.controller.wasEnabled word), b) := by
  have hguard : b.guards[i]? = some (some word) := Option.join_eq_some_iff.mp h
  simp only [perform, hguard, Option.bind_eq_bind, Option.bind_some]
  rfl

end Bank

/-! ## Acquisitions in reverse order -/

structure Acquisition where
  holder : Holder
  /-- The interrupt word right before. -/
  before : UInt64
  deriving DecidableEq, Repr

/-- A bank with the acquisitions that are to be undone, the latest first. -/
structure Nest where
  bank : Bank
  pending : List Acquisition

namespace Nest

def start (c : Controller) (values : List Int64) : Nest :=
  ⟨.new c values, []⟩

/-- Carries out a request that keeps the order: the latest acquisition is undone first. The word
must not change from outside. -/
def perform (n : Nest) (r : Request) : Option (Reply × Nest) :=
  if r.isForeign then none
  else
    match r.undone with
    | none =>
        (n.bank.perform r).map fun (reply, bank) =>
          (reply, ⟨bank, ((r.acquired reply).map fun holder =>
            ⟨holder, n.bank.controller.flags⟩).toList ++ n.pending⟩)
    | some holder =>
        match n.pending with
        | [] => none
        | latest :: rest =>
            if latest.holder = holder then
              (n.bank.perform r).map fun (reply, bank) => (reply, ⟨bank, rest⟩)
            else none

def run (n : Nest) : List Request → Option Nest
  | [] => some n
  | r :: rest => (n.perform r).bind fun (_, next) => next.run rest

def word (c : Controller) : List Acquisition → UInt64
  | [] => c.flags
  | latest :: _ => latest.before &&& ~~~c.mask

/-- Each acquisition found the word that the one before it left. -/
def Linked (c : Controller) : List Acquisition → Prop
  | [] => True
  | latest :: rest => latest.before = word c rest ∧ Linked c rest

/-- The pending acquisitions are what is held, and each holder keeps the word of before. -/
structure Kept (c : Controller) (n : Nest) : Prop where
  registered : n.bank.controller.registered = true
  mask : n.bank.controller.mask = c.mask
  flags : n.bank.controller.flags = word c n.pending
  linked : Linked c n.pending
  held : ∀ holder before, n.bank.kept? holder = some before ↔ ⟨holder, before⟩ ∈ n.pending
  distinct : (n.pending.map Acquisition.holder).Nodup

variable {c : Controller} {n next : Nest} {r : Request} {reply : Reply} {values : List Int64}
  {requests : List Request}

theorem word_ne_nothingSaved (hword : c.flags ≠ nothingSaved) {pending : List Acquisition}
    (h : Linked c pending) : word c pending ≠ nothingSaved := by
  induction pending with
  | nil => exact hword
  | cons latest rest ih =>
      rcases h with ⟨hbefore, hrest⟩
      rw [word, hbefore]
      exact Controller.masked_ne_nothingSaved (ih hrest)

theorem before_ne_nothingSaved (hword : c.flags ≠ nothingSaved) {pending : List Acquisition}
    (h : Linked c pending) {acquisition : Acquisition} (hmem : acquisition ∈ pending) :
    acquisition.before ≠ nothingSaved := by
  induction pending with
  | nil => contradiction
  | cons latest rest ih =>
      rcases h with ⟨hbefore, hrest⟩
      rcases List.mem_cons.mp hmem with rfl | hmem
      · rw [hbefore]
        exact word_ne_nothingSaved hword hrest
      · exact ih hrest hmem

theorem kept_start (hregistered : c.registered = true) : Kept c (start c values) where
  registered := hregistered
  mask := rfl
  flags := rfl
  linked := trivial
  held := by
    intro holder before
    have hidle : (Bank.new c values).kept? holder = none := by
      cases holder with
      | lock i =>
          rw [Bank.kept?_lock_eq, Bank.new, List.getElem?_map]
          cases values[i]? <;> rfl
      | guard i => rfl
    show (Bank.new c values).kept? holder = some before ↔ _
    rw [hidle]
    exact iff_of_false nofun List.not_mem_nil
  distinct := List.nodup_nil

theorem perform_cases (h : n.perform r = some (reply, next)) :
    (∃ holder, n.bank.Acquires holder next.bank ∧
        next.pending = ⟨holder, n.bank.controller.flags⟩ :: n.pending) ∨
      (∃ latest, n.bank.Undoes latest.holder next.bank ∧ r = latest.holder.undo ∧ reply = .done ∧
        n.pending = latest :: next.pending) ∨
      n.bank.Spares next.bank ∧ next.pending = n.pending := by
  unfold perform at h
  split at h
  · contradiction
  · rename_i hown
    have hown := Bool.eq_false_iff.mpr hown
    split at h
    · rename_i hundone
      rcases Option.map_eq_some_iff.mp h with ⟨⟨answer, bank⟩, hbank, heq⟩
      cases heq
      rcases Bank.perform_cases hbank hown with ⟨holder, -, hholder, hacquires⟩ |
        ⟨holder, hsome, -⟩ | ⟨-, hnone, hspares⟩
      · exact Or.inl ⟨holder, hacquires, by rw [hholder]; rfl⟩
      · rw [hundone] at hsome
        contradiction
      · exact Or.inr (Or.inr ⟨hspares, by rw [hnone]; rfl⟩)
    · rename_i holder hundone
      split at h
      · contradiction
      · rename_i latest rest hpending
        split at h
        · rename_i hholder
          subst hholder
          rcases Option.map_eq_some_iff.mp h with ⟨⟨answer, bank⟩, hbank, heq⟩
          cases heq
          rcases Bank.perform_cases hbank hown with ⟨_, hnone, -⟩ |
            ⟨holder, hsome, hdone, hundoes⟩ | ⟨hnone, -⟩
          · rw [hundone] at hnone
            contradiction
          · rw [hundone] at hsome
            cases hsome
            exact Or.inr (Or.inl ⟨latest, hundoes, r.eq_undo hundone, hdone, hpending⟩)
          · rw [hundone] at hnone
            contradiction
        · contradiction

theorem Kept.acquires {holder : Holder} (k : Kept c n) (h : n.bank.Acquires holder next.bank)
    (hpending : next.pending = ⟨holder, n.bank.controller.flags⟩ :: n.pending) :
    Kept c next := by
  have htaken := Controller.disable_of_registered k.registered
  have hfresh : ∀ before, ⟨holder, before⟩ ∉ n.pending := by
    intro before hmem
    rw [← k.held, h.idle] at hmem
    contradiction
  constructor
  · rw [h.controller, Controller.registered_disable]
    exact k.registered
  · rw [h.controller, Controller.mask_disable]
    exact k.mask
  · rw [h.controller, htaken.2, hpending, k.mask]
    rfl
  · rw [hpending]
    exact ⟨k.flags, k.linked⟩
  · intro other before
    rw [h.kept, hpending, List.mem_cons, Acquisition.mk.injEq]
    by_cases hother : other = holder
    · subst hother
      rw [if_pos rfl, htaken.1, Option.some_inj]
      constructor
      · rintro rfl
        exact Or.inl ⟨rfl, rfl⟩
      · rintro (⟨-, rfl⟩ | hmem)
        · rfl
        · exact absurd hmem (hfresh before)
    · rw [if_neg hother, k.held]
      constructor
      · exact Or.inr
      · exact fun hmem => hmem.resolve_left fun heq => hother heq.1
  · rw [hpending, List.map_cons]
    refine List.nodup_cons.mpr ⟨?_, k.distinct⟩
    intro hmem
    rcases List.mem_map.mp hmem with ⟨old, hold, rfl⟩
    exact hfresh old.before hold

theorem Kept.undoes {latest : Acquisition} (k : Kept c n) (hword : c.flags ≠ nothingSaved)
    (h : n.bank.Undoes latest.holder next.bank) (hpending : n.pending = latest :: next.pending) :
    Kept c next := by
  rcases h.restored with ⟨word, hkept, hcontroller⟩
  have hlinked := k.linked
  have hdistinct := k.distinct
  have hheld := k.held
  rw [hpending] at hlinked hdistinct hheld
  have hbefore : word = latest.before :=
    Option.some.inj (hkept.symm.trans ((hheld _ _).mpr List.mem_cons_self))
  have hsaved : word ≠ nothingSaved := by
    rw [hbefore, hlinked.1]
    exact word_ne_nothingSaved hword hlinked.2
  rcases List.nodup_cons.mp hdistinct with ⟨hapart, hrest⟩
  constructor
  · rw [hcontroller, Controller.registered_restore]
    exact k.registered
  · rw [hcontroller, Controller.mask_restore]
    exact k.mask
  · rw [hcontroller, Controller.flags_restore k.registered hsaved, hbefore]
    exact hlinked.1
  · exact hlinked.2
  · intro other before
    rw [h.kept]
    split
    · rename_i hother
      refine iff_of_false nofun ?_
      intro hmem
      exact hapart (List.mem_map.mpr ⟨_, hmem, hother⟩)
    · rename_i hother
      rw [hheld, List.mem_cons]
      constructor
      · exact fun hmem => hmem.resolve_left fun heq => hother (by rw [← heq])
      · exact Or.inr
  · exact hrest

theorem Kept.spares (k : Kept c n) (hword : c.flags ≠ nothingSaved)
    (h : n.bank.Spares next.bank) (hpending : next.pending = n.pending) : Kept c next := by
  have hflags : n.bank.controller.flags ≠ nothingSaved := by
    rw [k.flags]
    exact word_ne_nothingSaved hword k.linked
  have hcontroller : next.bank.controller.registered = true ∧
      next.bank.controller.mask = c.mask ∧
      next.bank.controller.flags = n.bank.controller.flags := by
    rcases h.controller with hsame | hback
    · rw [hsame]
      exact ⟨k.registered, k.mask, rfl⟩
    · rw [hback, Controller.registered_restore, Controller.mask_restore]
      simp only [Controller.registered_disable, Controller.mask_disable]
      exact ⟨k.registered, k.mask, Controller.flags_restore_disable _ hflags⟩
  constructor
  · exact hcontroller.1
  · exact hcontroller.2.1
  · rw [hcontroller.2.2, hpending]
    exact k.flags
  · rw [hpending]
    exact k.linked
  · intro other before
    rw [h.kept, hpending]
    exact k.held other before
  · rw [hpending]
    exact k.distinct

/-- Each nested request keeps the order. -/
theorem Kept.perform (k : Kept c n) (hword : c.flags ≠ nothingSaved)
    (h : n.perform r = some (reply, next)) : Kept c next := by
  rcases perform_cases h with ⟨holder, hacquires, hpending⟩ |
    ⟨latest, hundoes, -, -, hpending⟩ | ⟨hspares, hpending⟩
  · exact k.acquires hacquires hpending
  · exact k.undoes hword hundoes hpending
  · exact k.spares hword hspares hpending

theorem Kept.run (k : Kept c n) (hword : c.flags ≠ nothingSaved)
    (h : n.run requests = some next) : Kept c next := by
  induction requests generalizing n with
  | nil =>
      cases h
      exact k
  | cons r rest ih =>
      rcases Option.bind_eq_some_iff.mp h with ⟨⟨reply, middle⟩, hmiddle, hrest⟩
      exact ih (k.perform hword hmiddle) hrest

theorem Kept.undo {latest : Acquisition} {rest : List Acquisition} (k : Kept c n)
    (hword : c.flags ≠ nothingSaved) (hpending : n.pending = latest :: rest) :
    ∃ after, n.perform latest.holder.undo = some (.done, after) ∧ after.pending = rest ∧
      after.bank.controller.flags = latest.before := by
  have hkept : n.bank.kept? latest.holder = some latest.before := by
    rw [k.held, hpending]
    exact List.mem_cons_self
  rcases Bank.perform_undo hkept with ⟨bank, hbank⟩
  have hperform : n.perform latest.holder.undo = some (.done, ⟨bank, rest⟩) := by
    unfold Nest.perform
    simp [hpending, hbank]
  have hlinked := k.linked
  rw [hpending] at hlinked
  refine ⟨⟨bank, rest⟩, hperform, rfl, ?_⟩
  rw [(k.perform hword hperform).flags, hlinked.1]

theorem Kept.masked {holder : Holder} {before : UInt64} (k : Kept c n)
    (h : n.bank.kept? holder = some before) : n.bank.controller.enabled = false := by
  have hzero : ∀ word : UInt64, word &&& ~~~c.mask &&& c.mask = 0 := by
    intro word
    rw [UInt64.and_assoc, UInt64.and_comm (~~~c.mask), UInt64.and_not_self, UInt64.and_zero]
  rw [k.held] at h
  unfold Controller.enabled
  rw [k.flags, k.mask]
  cases hpending : n.pending with
  | nil =>
      rw [hpending] at h
      contradiction
  | cons latest rest =>
      rw [word, hzero]
      rfl

/-- However locks and guards are nested, to give up the latest one puts the interrupt word back that
it had right before; enabling bits are clear as long as anything is held; a request that finds the
lock held leaves the word alone; and a guard knows whether an enabling bit was set before it. -/
theorem interrupts_restored_in_reverse (hregistered : c.registered = true)
    (hword : c.flags ≠ nothingSaved) (hrun : (start c values).run requests = some n) :
    (∀ holder before, n.bank.kept? holder = some before → n.bank.controller.enabled = false) ∧
      (∀ r reply latest inner requests' outer, n.perform r = some (reply, inner) →
        inner.pending = latest :: n.pending → inner.run requests' = some outer →
        outer.pending = latest :: n.pending →
        ∃ after, outer.perform latest.holder.undo = some (.done, after) ∧
          after.pending = n.pending ∧
          after.bank.controller.flags = n.bank.controller.flags) ∧
      (∀ i after, n.bank.perform (.tryAcquire i) = some (.busy, after) →
        after.controller.flags = n.bank.controller.flags) ∧
      (∀ i before, ⟨.guard i, before⟩ ∈ n.pending →
        n.bank.perform (.wasEnabled i) = some (.truth (before &&& c.mask != 0), n.bank)) ∧
      (n.pending = [] → n.bank.controller.flags = c.flags) := by
  have k := (kept_start hregistered).run hword hrun
  have hflags : n.bank.controller.flags ≠ nothingSaved := by
    rw [k.flags]
    exact word_ne_nothingSaved hword k.linked
  refine ⟨fun _ _ => k.masked, ?_, ?_, ?_, ?_⟩
  · intro r reply latest inner requests' outer hinner hlatest houter hpending
    have hbefore : latest.before = n.bank.controller.flags := by
      rcases perform_cases hinner with ⟨_, -, hpushed⟩ | ⟨_, -, -, -, hpopped⟩ | ⟨-, hsame⟩
      · rw [hlatest] at hpushed
        rw [(List.cons.inj hpushed).1]
      · have hlength := congrArg List.length hpopped
        rw [hlatest, List.length_cons, List.length_cons] at hlength
        omega
      · have hlength := congrArg List.length (hlatest.symm.trans hsame)
        rw [List.length_cons] at hlength
        omega
    rw [← hbefore]
    exact ((k.perform hword hinner).run hword houter).undo hword hpending
  · intro i after hbusy
    rcases Bank.perform_cases hbusy rfl with ⟨_, -, hnone, -⟩ | ⟨_, hnone, -⟩ | ⟨-, -, hspares⟩
    · contradiction
    · contradiction
    · rcases hspares.controller with hsame | hback
      · rw [hsame]
      · rw [hback]
        exact Controller.flags_restore_disable _ hflags
  · intro i before hmem
    have hkept := (k.held _ _).mpr hmem
    rw [Bank.perform_wasEnabled hkept]
    have hsaved : before ≠ nothingSaved := before_ne_nothingSaved hword k.linked hmem
    unfold Controller.wasEnabled
    rw [k.registered, k.mask, bne_iff_ne.mpr hsaved]
    rfl
  · intro hnone
    rw [k.flags, hnone]
    rfl

def guardBetweenLocks : List Request :=
  [.acquire 0, .openGuard, .tryAcquire 1, .tryAcquire 0, .release 1, .tryAcquire 1, .add 1 5,
    .release 1, .closeGuard 0]

/-- The first lock is still held after that, and it puts back the word that it took. -/
theorem restored_after_guard : ∃ n, (start ⟨0xff, 0x0f, true, []⟩ [1, 2]).run guardBetweenLocks =
      some n ∧ n.pending = [⟨.lock 0, 0xff⟩] ∧ n.bank.controller.flags = 0xf0 ∧
      ∃ after, n.perform (.release 0) = some (.done, after) ∧
        after.bank.controller.flags = 0xff := by
  have hfirst : ∃ inner, (start ⟨0xff, 0x0f, true, []⟩ [1, 2]).perform (.acquire 0) =
      some (.value 1, inner) ∧ inner.pending = [⟨.lock 0, 0xff⟩] ∧
      ∃ outer, inner.run guardBetweenLocks.tail = some outer ∧
        outer.pending = [⟨.lock 0, 0xff⟩] ∧ outer.bank.controller.flags = 0xf0 := by
    refine ⟨_, rfl, rfl, _, rfl, rfl, rfl⟩
  rcases hfirst with ⟨inner, hinner, hlatest, outer, houter, hpending, hflags⟩
  have hrun : (start ⟨0xff, 0x0f, true, []⟩ [1, 2]).run guardBetweenLocks = some outer := by
    show (Nest.perform _ (.acquire 0)).bind _ = some outer
    rw [hinner]
    exact houter
  have hstart : (start ⟨0xff, 0x0f, true, []⟩ [1, 2]).run [] =
      some (start ⟨0xff, 0x0f, true, []⟩ [1, 2]) := rfl
  rcases (interrupts_restored_in_reverse rfl (by decide) hstart).2.1 (.acquire 0) (.value 1) _
    inner _ outer hinner hlatest houter hpending with ⟨after, hafter, -, hrestored⟩
  exact ⟨outer, hrun, hpending, hflags, after, hafter, hrestored⟩

end Nest
end Interrupt
end DemandPaging
