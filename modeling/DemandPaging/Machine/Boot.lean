import DemandPaging.Machine.Registration

/-!
# Starting the machine

A machine is made of a configuration and of hardware: frames, perhaps a disk to swap to, and
files. It starts without processes.
-/

namespace DemandPaging

structure Hardware where
  frames : Nat
  granting : Schedule Bool
  residue : Nat → Nat → UInt8
  disk : Option Swap.Disk
  files : List BackingFile

namespace Machine

def bootSwap (disk : Option Swap.Disk) (pageBytes : Nat) : Except Stop (Swap.Area × Message) :=
  match disk with
  | some d => (Swap.Area.create d pageBytes).map fun area => (area, area.readyMessage)
  | none => .ok (.disabled, .noSwapDevice)

def initial (layout : Layout) (hardware : Hardware) (area : Swap.Area) (report : Message) :
    Machine where
  layout := layout
  pool := .new hardware.frames layout.pageBytes hardware.granting hardware.residue
  ring := .empty
  swap := area
  files := hardware.files
  loaderRuns := fun _ => 0
  processes := []
  nextId := 0
  held := []
  trace := [.reported (.started layout.pageSize layout.userStackTop), .reported report]

/-- Starts a machine, if the configuration is accepted and the disk can be cut into slots. -/
def boot (config : Config) (hardware : Hardware) : Except Stop Machine :=
  match Layout.ofConfig config with
  | .error e => .error (.failed e)
  | .ok layout =>
      (bootSwap hardware.disk layout.pageBytes).map fun (area, report) =>
        initial layout hardware area report

end Machine
end DemandPaging
