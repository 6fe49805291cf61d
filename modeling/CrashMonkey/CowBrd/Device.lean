import CrashMonkey.Bio
import CrashMonkey.CowBrd.Copy
import CrashMonkey.Lib.Chain
import CrashMonkey.Lib.Transition

namespace CrashMonkey.CowBrd

def eio : Int := 5
def enotty : Int := 25

/-- A device; `parentBrd` is the position of its parent in the list of devices. -/
structure BrdDevice where
  brdNumber : ℕ
  parentBrd : Option ℕ
  isWritable : Bool
  isSnapshot : Bool
  brdPages : PageTree

/-- `brd_devices`, all of the same capacity in sectors. -/
structure System where
  capacity : ℕ
  devices : List BrdDevice

def brdAlloc (numDisks i : ℕ) : BrdDevice := ⟨i, none, true, decide (numDisks ≤ i), ∅⟩

def brdInitLoop (numDisks : ℕ) : ℕ → ℕ → List BrdDevice → List BrdDevice
  | 0, _, devices => devices
  | left + 1, i, devices =>
    let brd := brdAlloc numDisks i
    let parent := if numDisks ≤ i then
      (devices ++ [brd]).findIdx? fun d => d.brdNumber == i % numDisks else none
    brdInitLoop numDisks left (i + 1) (devices ++ [{ brd with parentBrd := parent }])

def brdInit (numDisks numSnapshots diskSize : ℕ) : System :=
  ⟨diskSize * 2, brdInitLoop numDisks (numDisks * (1 + numSnapshots)) 0 []⟩

/-- What a request meets: the memory there is for its segments, and what lies behind
the pages. -/
structure Env where
  alloc : ℕ → Alloc × Alloc
  beyond : ℕ → UInt8

def brdSegments (env : Env) (parent : Option PageTree) (read : Bool) :
    List Segment → ℕ → PageTree → ℕ → Int →
    Except Fault (Int × PageTree × List ((ℕ → UInt8) × Bool))
  | [], _, pages, _, err => return (err, pages, [])
  | bvec :: bvecs, i, pages, sector, _ => do
    let (err, pages, page, inside) ← brdDoBvec (env.alloc i) env.beyond parent pages bvec.bvPage
      bvec.bvLen bvec.bvOffset read sector
    if err ≠ 0 then return (err, pages, [(page, inside)])
    let (err, pages, rest) ← brdSegments env parent read bvecs (i + 1) pages
      (sector + bvec.bvLen / 2 ^ sectorShift) err
    return (err, pages, (page, inside) :: rest)

def brdMakeRequest (env : Env) (capacity : ℕ) (brd : BrdDevice) (parent : Option PageTree)
    (bio : Bio) : Except Fault (Int × PageTree × List ((ℕ → UInt8) × Bool)) :=
  if capacity < bio.endSector then return (-eio, brd.brdPages, [])
  else if (hasFlag bio.biRw reqWrite || hasFlag bio.biRw reqDiscard) && !brd.isWritable then
    return (-eio, brd.brdPages, [])
  else if hasFlag bio.biRw reqDiscard then do
    let pages ← discardFromBrd brd.brdPages bio.biSector bio.biSize
    return (0, pages, [])
  else brdSegments env parent bio.isRead bio.segments 0 brd.brdPages bio.biSector (-eio)

def freeBatch : ℕ := 16

def radixTreeGangLookup (pages : PageTree) (pos max : ℕ) : List Page :=
  (((pages.keys.filter (pos ≤ ·)).sort (· ≤ ·)).take max).filterMap fun k => pages.lookup k

def freePages : List Page → ℕ → PageTree → Except Fault (ℕ × PageTree)
  | [], pos, pages => .ok (pos, pages)
  | page :: batch, pos, pages =>
    if page.index < pos then .error .bugOn
    else if pages.lookup page.index = some page then
      freePages batch page.index (pages.erase page.index)
    else .error .bugOn

theorem freePages_card {batch : List Page} {pos pos' : ℕ} {pages pages' : PageTree}
    (h : freePages batch pos pages = .ok (pos', pages')) :
    pages'.keys.card + batch.length = pages.keys.card := by
  induction batch generalizing pos pages with
  | nil =>
    simp only [freePages, Except.ok.injEq, Prod.mk.injEq] at h
    simp [h.2]
  | cons page batch ih =>
    simp only [freePages] at h
    split_ifs at h with hpos hpage
    have hcard := Chain.card_erase_add_one hpage
    have hrest := ih h
    simp only [List.length_cons]
    omega

def brdFreePagesFrom (pages : PageTree) (pos : ℕ) : Except Fault PageTree :=
  match _h : freePages (radixTreeGangLookup pages pos freeBatch) pos pages with
  | .error fault => .error fault
  | .ok (pos', pages') =>
    if _hfull : (radixTreeGangLookup pages pos freeBatch).length = freeBatch then
      brdFreePagesFrom pages' (pos' + 1)
    else .ok pages'
termination_by pages.keys.card
decreasing_by
  have hcard := freePages_card _h
  have : freeBatch = 16 := rfl
  omega

def brdFreePages (pages : PageTree) : Except Fault PageTree := brdFreePagesFrom pages 0

inductive Cmd where
  | snapshot
  | unsnapshot
  | restoreSnapshot
  | wipe
  | other
deriving DecidableEq, Repr

def brdIoctl (brd : BrdDevice) : Cmd → Except Fault (Int × BrdDevice)
  | .snapshot =>
    if brd.isSnapshot then return (-enotty, brd) else return (0, { brd with isWritable := false })
  | .unsnapshot =>
    if brd.isSnapshot then return (-enotty, brd) else return (0, { brd with isWritable := true })
  | .restoreSnapshot =>
    if !brd.isSnapshot then return (-enotty, brd)
    else do
      let pages ← brdFreePages brd.brdPages
      return (0, { brd with brdPages := pages })
  | .wipe =>
    if brd.isSnapshot then return (-enotty, brd)
    else do
      let pages ← brdFreePages brd.brdPages
      return (0, { brd with brdPages := pages })
  | .other => return (-enotty, brd)

inductive Event where
  | bio (dev : ℕ) (bio : Bio) (env : Env)
  | ioctl (dev : ℕ) (cmd : Cmd)

def Event.dev : Event → ℕ
  | .bio dev _ _ => dev
  | .ioctl dev _ => dev

def System.parentPages (s : System) (brd : BrdDevice) : Option PageTree :=
  brd.parentBrd.bind fun p => s.devices[p]?.map BrdDevice.brdPages

def serve (s : System) (brd : BrdDevice) : Event → Except Fault BrdDevice
  | .bio _ bio env => do
    let (_, pages, _) ← brdMakeRequest env s.capacity brd (s.parentPages brd) bio
    return { brd with brdPages := pages }
  | .ioctl _ cmd => do
    let (_, brd) ← brdIoctl brd cmd
    return brd

/-- One event; without its device nothing happens. -/
def step (s : System) (e : Event) : Except Fault System :=
  match s.devices[e.dev]? with
  | none => return s
  | some brd => do
    let brd ← serve s brd e
    return { s with devices := s.devices.set e.dev brd }

def Step (s : System) (e : Event) (s' : System) : Prop := step s e = .ok s'

/-- The states of the devices that `brd_init` makes; `disk_size * 2` is an `int`. -/
def Reachable (s : System) : Prop :=
  ∃ numDisks numSnapshots diskSize es, diskSize * 2 < 2 ^ 31 ∧
    Transition.Run Step (brdInit numDisks numSnapshots diskSize) es s

def System.content (s : System) (dev : ℕ) : ℕ → UInt8 :=
  s.devices[dev]?.elim (fun _ => 0) fun brd => CowBrd.content (s.parentPages brd) brd.brdPages

end CrashMonkey.CowBrd
