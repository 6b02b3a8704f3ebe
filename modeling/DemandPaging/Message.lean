import DemandPaging.Failure

/-!
# Messages

What the program reports about its work, each report with its level and wording. Addresses are
written in hexadecimal; a frame is written by its number.
-/

namespace DemandPaging

inductive Level where
  | debug
  | info
  | warn
  | error
  deriving DecidableEq, Repr

def Level.name : Level → String
  | debug => "DEBUG"
  | info => "INFO"
  | warn => "WARN"
  | error => "ERROR"

inductive Message where
  | evicted (va : Vaddr) (frame : Nat)
  | claimed (va : Vaddr) (frame : Nat)
  | stackGrown (va : Vaddr)
  | mapped (start stop : Vaddr) (offset : UInt64)
  | unmapped (base : Vaddr) (pages : Nat)
  | copied (pages : Nat)
  | tornDown (pages : Nat)
  | swapReady (slots sectorsPerPage sectorSize : Nat)
  | started (pageSize stackTop : UInt64)
  | noSwapDevice
  | evictionFailed (va : Vaddr) (reason : PagingError)
  | claimFailed (va : Vaddr) (reason : PagingError)
  | unlistedFrame (frame : Nat)
  | faultOutside (va : Vaddr)
  | faultProtected (va : Vaddr)
  | faultReadOnly (va : Vaddr)
  | faultUnmapped (va : Vaddr)
  | partialRead (offset expected got : Nat)
  | partialWrite (offset expected got : Nat)
  | writeBackFailed (va : Vaddr) (reason : PagingError)
  | sectorUnwritten (sector slot : Nat)
  | sectorUnread (sector slot : Nat)
  deriving DecidableEq, Repr

namespace Message

def level : Message → Level
  | evicted .. | claimed .. | stackGrown .. | mapped .. | unmapped .. | copied .. | tornDown .. =>
      .debug
  | swapReady .. | started .. => .info
  | noSwapDevice | evictionFailed .. | claimFailed .. | unlistedFrame .. | faultOutside ..
  | faultProtected .. | faultReadOnly .. | faultUnmapped .. | partialRead .. => .warn
  | partialWrite .. | writeBackFailed .. | sectorUnwritten .. | sectorUnread .. => .error

def text : Message → String
  | evicted va frame => "vm: evicted page " ++ Hex.tagged va ++ s!" from frame #{frame}"
  | claimed va frame => "vm: claimed page " ++ Hex.tagged va ++ s!" -> frame #{frame}"
  | stackGrown va => "vm: stack grows to " ++ Hex.tagged va
  | mapped start stop offset =>
      "vm: mmap " ++ Hex.tagged start ++ ".." ++ Hex.tagged stop ++
        s!" at file offset {offset.toNat}"
  | unmapped base pages => "vm: munmap " ++ Hex.tagged base ++ s!", {pages} pages"
  | copied pages => s!"vm: copied {pages} pages"
  | tornDown pages => s!"vm: torn down {pages} pages"
  | swapReady slots sectorsPerPage sectorSize =>
      s!"swap: {slots} slots ({sectorsPerPage} sectors of {sectorSize} bytes per page)"
  | started pageSize stackTop =>
      "vm: initialized, page size " ++ Hex.tagged pageSize ++ ", stack top " ++
        Hex.tagged stackTop
  | noSwapDevice => "vm: no swap device, anonymous pages cannot be evicted"
  | evictionFailed va reason =>
      "vm: cannot evict page " ++ Hex.tagged va ++ ": " ++ reason.message
  | claimFailed va reason =>
      "vm: failed to claim page " ++ Hex.tagged va ++ ": " ++ reason.message
  | unlistedFrame frame => s!"vm: freeing unregistered frame #{frame}"
  | faultOutside va => "vm: fault at invalid address " ++ Hex.tagged va
  | faultProtected va => "vm: protection fault at " ++ Hex.tagged va
  | faultReadOnly va => "vm: write to read-only page " ++ Hex.tagged va
  | faultUnmapped va => "vm: fault at unmapped address " ++ Hex.tagged va
  | partialRead offset expected got =>
      s!"Partial read at offset {offset}: expected {expected}, got {got}"
  | partialWrite offset expected got =>
      s!"Partial write at offset {offset}: expected {expected}, got {got}"
  | writeBackFailed va reason =>
      "vm: writeback of " ++ Hex.tagged va ++ " failed: " ++ reason.message
  | sectorUnwritten sector slot => s!"swap: failed to write sector {sector} of slot {slot}"
  | sectorUnread sector slot => s!"swap: failed to read sector {sector} of slot {slot}"

def line (m : Message) : String :=
  m.level.name ++ " " ++ m.text

end Message
end DemandPaging
