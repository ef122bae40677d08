import BlockVideo.Plane.Basic

/-!
# Borders

The border repeats the outermost visible samples, so that a read which starts left of or above the
visible area still finds its nearest visible neighbour. Each visible row is first extended to both
sides; the first and the last bordered row are then copied upwards and downwards, corners included.
-/

namespace BlockVideo.Plane

variable {l : Layout}

/-- The place where bordered row `row` starts. Bordered rows count from the top of the border. -/
def borderedStart (l : Layout) (row : Nat) : Nat := row * l.stride

def borderedRow (p : Plane l) (row : Fin (l.height + 2 * l.border)) :
    Vector UInt8 (l.width + 2 * l.border) :=
  Vector.ofFn fun i =>
    getElem p.samples (borderedStart l row + i) (Layout.bordered_lt_size i.isLt row.isLt)

/-- Extends visible row `y` to both sides by the samples in columns `first` and `last`. -/
def extendRow (p : Plane l) (first last : Fin l.width) (y : Fin l.height) : Plane l :=
  let a := p.get first y
  let b := p.get last y
  let start := borderedStart l (y + l.border)
  let left := Run.overwrite p.samples start fun _ : Fin l.border => a
  ⟨Run.overwrite left (start + l.border + l.width) fun _ : Fin l.border => b⟩

def copyRow (p : Plane l) (source target : Fin (l.height + 2 * l.border)) : Plane l :=
  let row := p.borderedRow source
  ⟨Run.overwrite p.samples (borderedStart l target) row.get⟩

/-- Fills the border from the visible samples. A plane without visible samples stays as it is. -/
def extendBorders (p : Plane l) : Plane l :=
  if h : 0 < l.width ∧ 0 < l.height then
    let sides := Fin.foldl l.height
      (fun q y => q.extendRow ⟨0, h.1⟩ ⟨l.width - 1, Nat.sub_lt h.1 Nat.one_pos⟩ y) p
    let above := Fin.foldl l.border
      (fun q i => q.copyRow ⟨l.border, by omega⟩ ⟨i, by omega⟩) sides
    Fin.foldl l.border
      (fun q i => q.copyRow ⟨l.border + l.height - 1, by omega⟩
        ⟨l.border + l.height + i, by omega⟩) above
  else p

/-- Writes `f x y` over every visible sample, row by row where rows have any. -/
def setVisible (p : Plane l) (f : Fin l.width → Fin l.height → UInt8) : Plane l :=
  if l.width = 0 then p
  else Fin.foldl l.height (fun q y => ⟨Run.overwrite q.samples (l.index 0 y) fun x => f x y⟩) p

/-- An owned plane whose visible samples are those of `f`, with the border that goes with them. -/
def ofFn (width height border : Nat) (f : Nat → Nat → UInt8) :
    Plane (Layout.owned width height border) :=
  ((constant _ 0).setVisible fun x y => f x y).extendBorders

def ofFn? (width height border : Nat) (f : Nat → Nat → UInt8) :
    Checked (Plane (Layout.owned width height border)) := do
  Layout.requireOwned width height border
  return ofFn width height border f

theorem ofFn?_eq_ok {width height border : Nat} (f : Nat → Nat → UInt8)
    (room : Layout.requireOwned width height border = .ok ()) :
    ofFn? width height border f = .ok (ofFn width height border f) := by
  rw [ofFn?, room]
  rfl

def blank? (width height border : Nat) : Checked (Plane (Layout.owned width height border)) := do
  Layout.requireOwned width height border
  return constant _ 0

end BlockVideo.Plane
