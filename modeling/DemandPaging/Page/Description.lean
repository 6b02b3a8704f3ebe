import DemandPaging.Page

/-!
# Descriptions of pages

The text that shows all fields of a page to someone who is looking for a defect. Absent values
are written `None` and present ones `Some(…)`.
-/

namespace DemandPaging
namespace Description

def optional (text : Option String) : String :=
  match text with
  | some s => "Some(" ++ s ++ ")"
  | none => "None"

def number (n : Nat) : String :=
  toString n

def truth (b : Bool) : String :=
  if b then "true" else "false"

def fields (name : String) (parts : List (String × String)) : String :=
  let written := parts.map fun part => part.1 ++ ": " ++ part.2
  name ++ " \x7b " ++ ", ".intercalate written ++ " \x7d"

def address (va : Vaddr) : String :=
  "Vaddr(" ++ number va.toNat ++ ")"

def frame (f : Nat) : String :=
  fields "Frame" [("kva", "Kva(#" ++ number f ++ ")")]

def extent (e : FileExtent) : String :=
  fields "FileSpan"
    [("file", "\"<dyn MmFile>\""), ("offset", number e.offset.toNat),
      ("read_bytes", number e.readBytes.toNat), ("zero_bytes", number e.zeroBytes.toNat)]

/-- A loader; of a function nothing can be shown. -/
def loader : Loader → String
  | .file e => "File(" ++ extent e ++ ")"
  | .custom _ => "Custom(<fn>)"

def origin : Origin → String
  | .anon l => "Anon(" ++ optional (l.map loader) ++ ")"
  | .file e => "File(" ++ extent e ++ ")"

def state : PageState → String
  | .uninit o => "Uninit(" ++ fields "UninitPage" [("pending", origin o)] ++ ")"
  | .anon slot =>
      let shown := slot.map fun n => "SwapSlot(" ++ number n ++ ")"
      "Anon(" ++ fields "AnonPage" [("slot", optional shown)] ++ ")"
  | .file e => "File(" ++ fields "FilePage" [("span", extent e)] ++ ")"

end Description

def Page.describe (p : Page) : String :=
  Description.fields "Page"
    [("va", Description.address p.va),
      ("writable", Description.truth p.writable),
      ("is_stack", Description.truth p.isStack),
      ("frame", Description.optional (p.frame.map Description.frame)),
      ("group", Description.optional (p.mapping.map Description.address)),
      ("kind", Description.state p.state)]

end DemandPaging
