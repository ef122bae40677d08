/-!
# Tiles

A tile is a rectangle of samples on its own, `width` by `height`. `get` reads it by column and row;
two tiles that read the same everywhere are equal.
-/

namespace BlockVideo

structure Tile (width height : Nat) where
  rows : Vector (Vector UInt8 width) height
  deriving DecidableEq

abbrev SomeTile := (width : Nat) × (height : Nat) × Tile width height

namespace Tile

variable {w h : Nat}

def ofFn (f : Fin w → Fin h → UInt8) : Tile w h :=
  ⟨Vector.ofFn fun y => Vector.ofFn fun x => f x y⟩

def get (t : Tile w h) (x : Fin w) (y : Fin h) : UInt8 := (t.rows.get y).get x

theorem get_eq (t : Tile w h) (x : Fin w) (y : Fin h) : t.get x y = t.rows[y.val][x.val] := rfl

@[simp] theorem get_ofFn (f : Fin w → Fin h → UInt8) (x : Fin w) (y : Fin h) :
    (ofFn f).get x y = f x y := by
  simp [ofFn, get_eq]

theorem ext_get {t u : Tile w h} (e : ∀ x y, t.get x y = u.get x y) : t = u := by
  cases t
  cases u
  congr
  apply Vector.ext
  intro y hy
  apply Vector.ext
  intro x hx
  exact e ⟨x, hx⟩ ⟨y, hy⟩

def transpose (t : Tile w h) : Tile h w := ofFn fun x y => t.get y x

@[simp] theorem get_transpose (t : Tile w h) (x : Fin h) (y : Fin w) :
    t.transpose.get x y = t.get y x := get_ofFn ..

theorem transpose_transpose (t : Tile w h) : t.transpose.transpose = t :=
  ext_get fun x y => by simp

def mapRows {v : Nat} (f : Vector UInt8 w → Vector UInt8 v) (t : Tile w h) : Tile v h :=
  ⟨t.rows.map f⟩

@[simp] theorem get_mapRows {v : Nat} (f : Vector UInt8 w → Vector UInt8 v) (t : Tile w h)
    (x : Fin v) (y : Fin h) : (t.mapRows f).get x y = (f (t.rows.get y)).get x := by
  simp only [get_eq, mapRows, Vector.getElem_map]
  rfl

end Tile

end BlockVideo
