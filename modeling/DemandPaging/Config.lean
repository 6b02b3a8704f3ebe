import DemandPaging.Failure

/-!
# Memory layout

The constants of the layout of user memory. `Layout` is a configuration that passed
`Config.validate`: its page size is a power of two and its stack region lies between address
zero and the end of user space.
-/

namespace DemandPaging

/-- The constants from which the layout of user memory is fixed. -/
structure Config where
  pageSize : UInt64
  /-- The first address above user space. -/
  userLimit : UInt64
  /-- The first address above the user stack. -/
  userStackTop : UInt64
  maxStackSize : UInt64
  /-- How far below the stack pointer an access still counts as one to the stack. -/
  stackSlack : UInt64
  deriving DecidableEq, Repr

namespace Config

def standard : Config where
  pageSize := 4096
  userLimit := 0x8004000000
  userStackTop := 0x47480000
  maxStackSize := 8388608
  stackSlack := 32

instance : Inhabited Config := ⟨standard⟩

/-- The stack region is made of whole pages and lies inside user space. -/
def stackFits (c : Config) : Bool :=
  c.userStackTop % c.pageSize == 0 && decide (c.userStackTop ≤ c.userLimit) &&
    c.maxStackSize != 0 && c.maxStackSize % c.pageSize == 0 &&
    decide (c.maxStackSize ≤ c.userStackTop)

def validate (c : Config) : Except PagingError Unit :=
  if Word.isPowerOfTwo c.pageSize && c.stackFits then .ok () else .error .invalidArgument

def stackBottom (c : Config) : Except Abort UInt64 :=
  Word.subOrAbort c.userStackTop c.maxStackSize

end Config

/-- A configuration whose constants fit together. -/
structure Layout extends Config where
  valid : toConfig.validate = .ok ()

namespace Layout

def ofConfig (c : Config) : Except PagingError Layout :=
  match h : c.validate with
  | .ok _ => .ok { toConfig := c, valid := h }
  | .error e => .error e

def pageBytes (l : Layout) : Nat :=
  l.pageSize.toNat

def stackFloor (l : Layout) : UInt64 :=
  l.userStackTop - l.maxStackSize

theorem fits (l : Layout) :
    Word.isPowerOfTwo l.pageSize = true ∧ l.toConfig.stackFits = true := by
  have h := l.valid
  unfold Config.validate at h
  split at h
  · rename_i hb
    exact Bool.and_eq_true_iff.mp hb
  · contradiction

theorem pageSize_ne_zero (l : Layout) : l.pageSize ≠ 0 :=
  Word.ne_zero_of_isPowerOfTwo l.fits.1

theorem maxStackSize_le_userStackTop (l : Layout) : l.maxStackSize ≤ l.userStackTop := by
  have h := l.fits.2
  simp only [Config.stackFits, Bool.and_eq_true, decide_eq_true_eq] at h
  exact h.2

theorem pageBytes_pos (l : Layout) : 0 < l.pageBytes := by
  have h : l.pageSize.toNat ≠ 0 := by
    intro hz
    exact l.pageSize_ne_zero (UInt64.toNat_inj.mp hz)
  exact Nat.pos_of_ne_zero h

end Layout
end DemandPaging
