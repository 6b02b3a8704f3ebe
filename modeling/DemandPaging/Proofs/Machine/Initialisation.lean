import DemandPaging.Proofs.Machine.Ageing
import DemandPaging.Proofs.Machine.LoaderRuns

/-!
# Initialisation of pages

A page keeps its descriptor until a claim of it succeeds, which initialises it, and then it stays
what it has become until it is removed. Evictions, later claims, forks and failures of every kind
change its frame and its slot alone, so its loader is done with after the first success. A copy of
a page that is not initialised has the same descriptor, and a life of its own.
-/

namespace DemandPaging
namespace Machine

open Routine

variable {m n next last : Machine} {mem : FlatMemory} {o : Owner} {page later look : Page}
  {op : Operation} {ops : List Operation} {p s t : Nat} {va : Vaddr}

/-! ## The life of a page -/

/-- All along a run the page of an owner is registered, and up to its frame and its slot it is the
given one. -/
inductive Stays (o : Owner) (look : Page) : Machine → List Operation → Machine → Prop where
  | nil {m : Machine} {page : Page} (owned : m.ownedPage? o = some page)
      (alike : page.outline = look) : Stays o look m [] m
  | cons {m next last : Machine} {op : Operation} {rest : List Operation} {page : Page}
      (owned : m.ownedPage? o = some page) (alike : page.outline = look)
      (after : m.after? op = some next) (later : Stays o look next rest last) :
      Stays o look m (op :: rest) last

/-- In the middle of a run a page is initialised, by a claim of it or a fault there that succeeds.
Before and afterwards it stays as it is. -/
inductive Initialises (o : Owner) (page : Page) (m : Machine) :
    List Operation → Machine → Prop where
  | intro {u w last : Machine} {before after : List Operation} {op : Operation} {reply : Reply}
      (uninit : page.stateClass = .uninit) (waiting : Stays o page.outline m before u)
      (claims : op.Claims u o.process o.va) (served : op.perform u = .ok reply w)
      (done : Stays o page.initialised w after last) :
      Initialises o page m (before ++ op :: after) last

theorem Stays.exists_last (h : Stays o look m ops last) :
    ∃ page, last.ownedPage? o = some page ∧ page.outline = look := by
  induction h with
  | nil owned alike => exact ⟨_, owned, alike⟩
  | cons owned alike after later ih => exact ih

theorem Initialises.exists_last (h : Initialises o page m ops last) :
    ∃ later, last.ownedPage? o = some later ∧ later.outline = page.initialised := by
  cases h with
  | intro uninit waiting claims served done => exact done.exists_last

theorem Initialises.stateClass_eq (h : Initialises o page m ops last) :
    page.stateClass = .uninit := by
  cases h with
  | intro uninit waiting claims served done => exact uninit

theorem stays_or_initialises_cons (howned : m.ownedPage? o = some page)
    (hnext : m.after? op = some next) (hsame : later.outline = page.outline)
    (h : Stays o later.outline next ops last ∨ Initialises o later next ops last) :
    Stays o page.outline m (op :: ops) last ∨ Initialises o page m (op :: ops) last := by
  rcases h with hstays | hinit
  · rw [hsame] at hstays
    exact Or.inl (.cons howned rfl hnext hstays)
  · cases hinit with
    | @intro u w _ before after first reply uninit waiting claims served done =>
        rw [hsame] at waiting
        rw [← later.initialised_outline, hsame, page.initialised_outline] at done
        refine Or.inr ?_
        show Initialises o page m ((op :: before) ++ first :: after) last
        exact .intro ((Page.stateClass_eq_of_outline hsame).symm.trans uninit)
          (.cons howned rfl hnext waiting) claims served done

/-- A page that is there before and after a run stays as it is, or it is initialised once. -/
theorem Sound.stays_or_initialises (k : m.Sound {} mem) (hm : m.Numbered)
    (hrun : m.run ops = some last) (howned : m.ownedPage? o = some page)
    (hlater : last.ownedPage? o = some later) :
    Stays o page.outline m ops last ∨ Initialises o page m ops last := by
  induction ops generalizing m mem page with
  | nil =>
      cases hrun
      exact Or.inl (.nil howned rfl)
  | cons op rest ih =>
      rw [run_cons, Option.bind_eq_some_iff] at hrun
      rcases hrun with ⟨next, hnext, hlast⟩
      rcases k.after? hnext with ⟨mem', knext⟩
      have hages := k.ages_after? hnext
      have hid := hm.id_lt howned
      -- The page is there after the first operation, because it would not have come back.
      rcases (knext.ages_run hlast).ripens o later (Nat.lt_of_lt_of_le hid hages.next) hlater with
        ⟨middle, hmiddle, -⟩
      have hrest := ih knext (hages.numbered hm) hlast hmiddle
      rcases hages.ripens o middle hid hmiddle with ⟨first, hfirst, hripens⟩
      cases howned.symm.trans hfirst
      rcases hripens with hsame | ⟨⟨hclaims, reply, hserved⟩, hinit⟩
      · exact stays_or_initialises_cons howned hnext hsame hrest
      -- A first load of a page that is initialised already would make no difference.
      by_cases huninit : page.stateClass = .uninit
      · have hdone : Stays o page.initialised next rest last := by
          rw [← hinit]
          refine hrest.resolve_right fun hagain => ?_
          have hwaits := hagain.stateClass_eq
          rw [← Page.stateClass_eq_of_outline middle.outline_outline, hinit,
            page.stateClass_initialised] at hwaits
          exact page.effectiveClass_ne_uninit hwaits
        refine Or.inr ?_
        show Initialises o page m ([] ++ op :: rest) last
        exact .intro huninit (.nil howned rfl) hclaims hserved hdone
      · exact stays_or_initialises_cons howned hnext
          (hinit.trans (Page.initialised_eq_outline huninit)) hrest

structure InitialisesOnce (m : Machine) (o : Owner) : Prop where
  /-- At most one first load of the page was completed. -/
  loads : m.firstLoads o ≤ 1
  awaiting : ∀ page, m.ownedPage? o = some page → page.stateClass = .uninit → m.firstLoads o = 0
  /-- A claim or a fault that fails leaves the page as it is, whichever page it is about. -/
  failed : ∀ (op : Operation) p va e next page, op.claims? = some (p, va) →
    op.perform m = .error (.failed e) next → m.ownedPage? o = some page →
    ∃ later, next.ownedPage? o = some later ∧ later.outline = page.outline
  /-- As long as it is registered, the page keeps its nature, and it is initialised at most once. -/
  life : ∀ ops last page later, m.run ops = some last → m.ownedPage? o = some page →
    last.ownedPage? o = some later → later.nature = page.nature ∧
      (later.stateClass = page.stateClass ∧ Stays o page.outline m ops last ∨
        later.stateClass = page.effectiveClass ∧ Initialises o page m ops last)
  /-- Once it is removed it does not come back. -/
  gone : ∀ ops last, m.run ops = some last → o.id < m.nextId → m.ownedPage? o = none →
    last.ownedPage? o = none

theorem Reachable.initialisesOnce (h : m.Reachable) (o : Owner) : m.InitialisesOnce o := by
  rcases h.sound with ⟨mem, k⟩
  have hm := h.numbered
  refine ⟨hm.firstLoads_le_one o, fun _ => hm.firstLoads_eq_zero, ?_, ?_, ?_⟩
  · intro op p va e next page hclaims hfailed howned
    have hout := (k.unresolved hclaims hfailed).alike.pages o.process o.va id
    rw [(ownedPage?_eq_some_iff.mp howned).1] at hout
    exact exists_owned_of_outlines hout (ownedPage?_eq_some_iff.mp howned).2
  · intro ops last page later hrun howned hlater
    constructor
    · rcases (k.ages_run hrun).ripens o later (hm.id_lt howned) hlater with
        ⟨first, hfirst, hripens⟩
      cases howned.symm.trans hfirst
      exact hripens.nature_eq
    · refine (k.stays_or_initialises hm hrun howned hlater).imp (fun hstays => ?_) fun hinit => ?_
      · rcases hstays.exists_last with ⟨other, hother, hsame⟩
        cases hlater.symm.trans hother
        exact ⟨Page.stateClass_eq_of_outline hsame, hstays⟩
      · rcases hinit.exists_last with ⟨other, hother, hsame⟩
        cases hlater.symm.trans hother
        refine ⟨?_, hinit⟩
        rw [← page.stateClass_initialised, ← hsame]
        exact (Page.stateClass_eq_of_outline later.outline_outline).symm
  · intro ops last hrun hid hnone
    cases hlater : last.ownedPage? o with
    | none => rfl
    | some later =>
        rcases (k.ages_run hrun).ripens o later hid hlater with ⟨page, hpage, -⟩
        rw [hnone] at hpage
        contradiction

/-! ## Copies -/

structure CopiesAnew (s t : Nat) (m next : Machine) : Prop where
  descriptor : ∀ va copy, m.page? t va = none → next.page? t va = some copy →
    ∃ page, m.page? s va = some page ∧ copy.outline = { page.outline with id := copy.id, mmu := t }
  new : ∀ va copy, m.page? t va = none → next.page? t va = some copy →
    m.nextId ≤ copy.id ∧ next.firstLoads ⟨t, va, copy.id⟩ = 0

theorem Reachable.copiesAnew (h : m.Reachable) (hnext : m.after? (.fork s t) = some next) :
    CopiesAnew s t m next := by
  rcases h.sound with ⟨mem, k⟩
  have hcopied : Ends (Operation.fork s t).perform m Anyhow (fun _ next => Copied s t m next)
      fun _ next => Copied s t m next := by
    unfold Operation.perform
    rw [ends_bind]
    exact (ends_fork k trivial).mono (fun _ _ hend => hend.1) fun _ _ hend => hend.1
  have hnumbers : NumbersOn m next :=
    of_after? ((kept_perform numbersOn_ignores (.fork s t) m)) hnext
  have hsteps : Scene.Steps Deed.Growing m.scene next.scene :=
    (k.steps_after? hnext).mono fun _ hdeed => Operation.growing_of_fork hdeed
  refine ⟨(of_after? hcopied hnext).copies, ?_⟩
  intro va copy hnone hcopy
  rcases hnumbers.pages t va copy hcopy with ⟨old, hold, -⟩ | ⟨hnew, -⟩
  · rw [hnone] at hold
    contradiction
  · refine ⟨hnew, ?_⟩
    rw [← firstLoads_scene, hsteps.firstLoads_eq, firstLoads_scene]
    exact h.numbered.fresh _ hnew

/-! ## Custom loaders -/

/-- An operation runs no custom loader, or it is a claim or a fault at a page that waits for its
loader, which it runs once. The page is initialised if the operation succeeds, and otherwise it
stays exactly as it is. -/
inductive RunsInTurn (op : Operation) (m next : Machine) : Prop where
  | none (same : next.loaderRuns = m.loaderRuns)
  | once {p : Nat} {va : Vaddr} {page : Page} {loader : CustomLoader}
      (claims : op.claims? = some (p, va)) (lookup : m.lookup p va = some page)
      (waiting : page.state = .uninit (.anon (some (.custom loader))))
      (runs : next.loaderRuns = (m.countRun loader.counter).loaderRuns)
      (served : ∀ reply, op.perform m = .ok reply next →
        ∃ later, next.lookup p va = some later ∧ later.outline = page.initialised)
      (failed : ∀ e, op.perform m = .error (.failed e) next → next.lookup p va = some page)

theorem Reachable.runsInTurn (h : m.Reachable) (hnext : m.after? op = some next) :
    RunsInTurn op m next := by
  rcases h.sound with ⟨mem, k⟩
  cases hclaims : op.claims? with
  | none => exact .none (of_after? (sameRuns_perform hclaims m) hnext)
  | some place =>
      rcases place with ⟨p, va⟩
      rcases of_after? (runs_perform_claim k hclaims) hnext with hsame | ⟨loader, hloader, hruns⟩
      · exact .none hsame
      · rcases Option.bind_eq_some_iff.mp hloader with ⟨page, hpage, hstate⟩
        refine .once hclaims hpage (PageState.eq_uninit_of_customLoader? hstate) hruns ?_ ?_
        · intro reply hserved
          rcases k.exists_resolved hclaims hserved with ⟨later, f, hresolved⟩
          refine ⟨later, hresolved.lookup, ?_⟩
          rw [hresolved.claimed page hpage]
          exact page.outline_loaded (some f)
        · intro e hfailed
          exact (k.unresolved hclaims hfailed).lookup.trans hpage

/-! ## All pages -/

/-- Every page is initialised at most once, by a claim that succeeds, and it never changes its
type; a fork makes new pages with a life of their own; and only the claim of a page that is not
initialised runs its custom loader. -/
theorem Reachable.initialised_once (h : m.Reachable) :
    (∀ o, m.InitialisesOnce o) ∧
      (∀ s t next, m.after? (.fork s t) = some next → CopiesAnew s t m next) ∧
      ∀ op next, m.after? op = some next → RunsInTurn op m next :=
  ⟨h.initialisesOnce, fun _ _ _ => h.copiesAnew, fun _ _ => h.runsInTurn⟩

def reluctantOwner : Owner :=
  ⟨0, 0x1000, 0⟩

def reluctantProcess : List Operation :=
  [.start (.always true), .start (.always true),
    .allocate 0 .anon 0x1000 true
      (some (.custom (.constant 0 [7, 8] (some .invalidArgument) (some 1))))]

def reluctantLife : List Operation :=
  [.claim 0 0x1000, .claim 0 0x1000, .allocate 0 .anon 0x2000 true none,
    .allocate 0 .anon 0x3000 true none, .claim 0 0x2000, .claim 0 0x3000, .claim 0 0x1000,
    .fork 0 1]

/-- A page whose first claim fails is initialised by the second one. It is evicted later and loaded
again, but its loader does not run any more. -/
theorem initialised_by_second_claim : ∃ (m last : Machine) (page later : Page), m.Reachable ∧
    m.run reluctantLife = some last ∧ m.ownedPage? reluctantOwner = some page ∧
    last.ownedPage? reluctantOwner = some later ∧
    Initialises reluctantOwner page m reluctantLife last ∧ later.nature = page.nature ∧
    last.loaderRuns 0 = 2 ∧ last.trace.count (.filled reluctantOwner false) = 1 ∧
    last.firstLoads reluctantOwner = 1 := by
  have hrun := Reachable.of_run smallConfig (smallHardware (some (.blank 8 8)) [])
    reluctantProcess (fun m =>
      ((m.ownedPage? reluctantOwner).any fun page => decide (page.stateClass = .uninit)) &&
      (m.run reluctantLife).any fun last =>
        ((last.ownedPage? reluctantOwner).any fun later => decide (later.stateClass = .anon)) &&
        decide (last.loaderRuns 0 = 2) &&
        decide (last.trace.count (.filled reluctantOwner false) = 1) &&
        decide (0 < last.firstLoads reluctantOwner)) (by decide +kernel)
  rcases hrun with ⟨m, hm, hcheck⟩
  rcases Bool.and_eq_true_iff.mp hcheck with ⟨hbefore, hlife⟩
  rcases (Option.any_eq_true ..).mp hbefore with ⟨page, hpage, huninit⟩
  rcases (Option.any_eq_true ..).mp hlife with ⟨last, hlast, hafter⟩
  simp only [Bool.and_eq_true, decide_eq_true_eq] at hafter
  rcases hafter with ⟨⟨⟨hlater, hruns⟩, hreloads⟩, hloaded⟩
  rcases (Option.any_eq_true ..).mp hlater with ⟨later, hlater, hanon⟩
  have honce := hm.initialised_once.1 reluctantOwner
  rcases honce.life _ last page later hlast hpage hlater with ⟨hnature, hstays | hinit⟩
  · have hsame := (of_decide_eq_true hanon).symm.trans (hstays.1.trans (of_decide_eq_true huninit))
    contradiction
  · refine ⟨m, last, page, later, hm, hlast, hpage, hlater, hinit.2, hnature, hruns, hreloads, ?_⟩
    exact Nat.le_antisymm ((hm.later hlast).initialised_once.1 reluctantOwner).loads hloaded

end Machine
end DemandPaging
