import Mathlib.Algebra.Group.Int.Defs
import Mathlib.Algebra.Group.Nat.Defs
import Mathlib.Data.Int.Order.Basic

namespace MemoryArchive.Vision

def circleRadius : Int := 5
def arrowGap : Int := 5
def arrowLength : Int := 65
def arrowhead : Int := 9
def boxPad : Int := 8
def fontScale : Nat := 2
def charW : Nat := 5 * fontScale
def charH : Nat := 7 * fontScale
def charSp : Nat := fontScale

/-- The result of an operation on signed 32 bits, none where it overflows. -/
def i32 (v : Int) : Option Int := if -2 ^ 31 ≤ v ∧ v < 2 ^ 31 then some v else none

def u32 (v : Nat) : Option Nat := if v < 2 ^ 32 then some v else none

/-- The cast between the types of 32 bits. -/
def asI32 (v : Nat) : Int := if v < 2 ^ 31 then v else v - 2 ^ 32

/-- The `clamp` of Rust, which panics on bounds in the wrong order. -/
def clamp (v lo hi : Int) : Option Int :=
  if lo ≤ hi then some (if v < lo then lo else if hi < v then hi else v) else none

inductive Dir
  | right | left | down | up
  deriving DecidableEq

structure Point where
  x : Int
  y : Int
  deriving DecidableEq

def label (x y : Int) : String := s!"X: {x}  Y: {y}"

def textPixelWidth (text : String) : Option Nat :=
  let n := text.length % 2 ^ 32
  if n = 0 then some 0
  else do
    let glyphs ← u32 (n * charW)
    let gaps ← u32 ((n - 1) * charSp)
    u32 (glyphs + gaps)

/-- Of several candidates with the highest score, the last one. -/
def maxByKey (first : Int × Dir) (rest : List (Int × Dir)) : Int × Dir :=
  rest.foldl (fun best c => if best.1 ≤ c.1 then c else best) first

def bestDirection (cx cy : Int) (imgW imgH : UInt32) (boxW boxH : Int) : Option Dir := do
  let needH ← i32 (circleRadius + arrowGap + arrowLength + boxW)
  let needV ← i32 (circleRadius + arrowGap + arrowLength + boxH)
  let toRight ← i32 (asI32 imgW.toNat - cx)
  let right ← i32 (toRight - needH)
  let left ← i32 (cx - needH)
  let toBottom ← i32 (asI32 imgH.toNat - cy)
  let down ← i32 (toBottom - needV)
  let up ← i32 (cy - needV)
  return (maxByKey (right, .right) [(left, .left), (down, .down), (up, .up)]).2

/-- Where the arrow starts and ends and the corner of the box. -/
structure Arrow where
  start : Point
  tip : Point
  box : Point
  deriving DecidableEq

def arrowAndBox (cx cy boxW boxH : Int) (dir : Dir) : Option Arrow :=
  match dir with
  | .right => do
      let edge ← i32 (cx + circleRadius)
      let x₀ ← i32 (edge + arrowGap)
      let x₁ ← i32 (x₀ + arrowLength)
      let y ← i32 (cy - boxH.tdiv 2)
      return ⟨⟨x₀, cy⟩, ⟨x₁, cy⟩, ⟨x₁, y⟩⟩
  | .left => do
      let edge ← i32 (cx - circleRadius)
      let x₀ ← i32 (edge - arrowGap)
      let x₁ ← i32 (x₀ - arrowLength)
      let x ← i32 (x₁ - boxW)
      let y ← i32 (cy - boxH.tdiv 2)
      return ⟨⟨x₀, cy⟩, ⟨x₁, cy⟩, ⟨x, y⟩⟩
  | .down => do
      let edge ← i32 (cy + circleRadius)
      let y₀ ← i32 (edge + arrowGap)
      let y₁ ← i32 (y₀ + arrowLength)
      let x ← i32 (cx - boxW.tdiv 2)
      return ⟨⟨cx, y₀⟩, ⟨cx, y₁⟩, ⟨x, y₁⟩⟩
  | .up => do
      let edge ← i32 (cy - circleRadius)
      let y₀ ← i32 (edge - arrowGap)
      let y₁ ← i32 (y₀ - arrowLength)
      let x ← i32 (cx - boxW.tdiv 2)
      let y ← i32 (y₁ - boxH)
      return ⟨⟨cx, y₀⟩, ⟨cx, y₁⟩, ⟨x, y⟩⟩

def clampBox (origin : Point) (boxW boxH imgW imgH : Int) : Option Point := do
  let freeW ← i32 (imgW - boxW)
  let x ← clamp origin.x 0 (max freeW 0)
  let freeH ← i32 (imgH - boxH)
  let y ← clamp origin.y 0 (max freeH 0)
  return ⟨x, y⟩

structure Line where
  first : Point
  last : Point
  deriving DecidableEq

/-- A point at a distance from another. -/
def Point.moved (p : Point) (dx dy : Int) : Option Point := do
  let x ← i32 (p.x + dx)
  let y ← i32 (p.y + dy)
  return ⟨x, y⟩

/-- The two lines of the arrow shaft, side by side. -/
def shaft (arrow : Arrow) (dir : Dir) : Option (List Line) :=
  [(0 : Int), 1].mapM fun off => do
    let (ox, oy) := match dir with
      | .right | .left => (0, off)
      | .down | .up => (off, 0)
    return ⟨← arrow.start.moved ox oy, ← arrow.tip.moved ox oy⟩

/-- How far the ends of the arms are from the tip. -/
def armEnds : Dir → List (Int × Int)
  | .right => [(-arrowhead, -arrowhead.tdiv 2), (-arrowhead, arrowhead.tdiv 2)]
  | .left => [(arrowhead, -arrowhead.tdiv 2), (arrowhead, arrowhead.tdiv 2)]
  | .down => [(-arrowhead.tdiv 2, -arrowhead), (arrowhead.tdiv 2, -arrowhead)]
  | .up => [(-arrowhead.tdiv 2, arrowhead), (arrowhead.tdiv 2, arrowhead)]

def drawArrowhead (tip : Point) (dir : Dir) : Option (List Line) :=
  (armEnds dir).mapM fun (dx, dy) => return ⟨tip, ← tip.moved dx dy⟩

/-- What is drawn around a click: the circle, the arrow and the box with the label. -/
structure Marker where
  centre : Point
  dir : Dir
  arrow : Arrow
  shaft : List Line
  head : List Line
  boxOrigin : Point
  boxW : Int
  boxH : Int
  border : Point
  text : Point
  deriving DecidableEq

/-- The click in the range of the pixels. -/
def centre (imgW imgH : UInt32) (x y : Int) : Option Point := do
  let lastX ← i32 (asI32 imgW.toNat - 1)
  let cx ← clamp x 0 lastX
  let lastY ← i32 (asI32 imgH.toNat - 1)
  let cy ← clamp y 0 lastY
  return ⟨cx, cy⟩

/-- The part that `mark` and `mark_type` share. -/
def place (imgW imgH : UInt32) (c : Point) (text : String) : Option Marker := do
  let textW ← textPixelWidth text
  let boxW ← i32 (asI32 textW + boxPad * 2)
  let boxH ← i32 (asI32 charH + boxPad * 2)
  let dir ← bestDirection c.x c.y imgW imgH boxW boxH
  let arrow ← arrowAndBox c.x c.y boxW boxH dir
  let boxOrigin ← clampBox arrow.box boxW boxH (asI32 imgW.toNat) (asI32 imgH.toNat)
  let shaft ← shaft arrow dir
  let head ← drawArrowhead arrow.tip dir
  let border ← boxOrigin.moved 1 1
  let text ← boxOrigin.moved boxPad boxPad
  return ⟨c, dir, arrow, shaft, head, boxOrigin, boxW, boxH, border, text⟩

def mark (imgW imgH : UInt32) (clickX clickY : Int32) : Option Marker := do
  let c ← centre imgW imgH clickX.toInt clickY.toInt
  place imgW imgH c (label clickX.toInt clickY.toInt)

/-- The annotation of a cursor, whose label shows the pixel and not the position given. -/
def markType (imgW imgH : UInt32) (cursorX cursorY : Int32) : Option Marker := do
  let c ← centre imgW imgH cursorX.toInt cursorY.toInt
  place imgW imgH c (label c.x c.y)

/-- The box with its arrow has room between the click and the edge of the image. -/
def Fits (imgW imgH : Int) (c : Point) (boxW boxH : Int) : Dir → Prop
  | .right => c.x + circleRadius + arrowGap + arrowLength + boxW ≤ imgW
  | .left => 0 ≤ c.x - circleRadius - arrowGap - arrowLength - boxW
  | .down => c.y + circleRadius + arrowGap + arrowLength + boxH ≤ imgH
  | .up => 0 ≤ c.y - circleRadius - arrowGap - arrowLength - boxH

/-- A pixel of the box lies in the square around the circle. -/
def Marker.Overlaps (m : Marker) : Prop :=
  ∃ p : Point, (m.boxOrigin.x ≤ p.x ∧ p.x < m.boxOrigin.x + m.boxW) ∧
    (m.boxOrigin.y ≤ p.y ∧ p.y < m.boxOrigin.y + m.boxH) ∧
    (m.centre.x - circleRadius ≤ p.x ∧ p.x ≤ m.centre.x + circleRadius) ∧
    (m.centre.y - circleRadius ≤ p.y ∧ p.y ≤ m.centre.y + circleRadius)

structure Marker.Valid (imgW imgH : Int) (m : Marker) : Prop where
  centre : (0 ≤ m.centre.x ∧ m.centre.x < imgW) ∧ 0 ≤ m.centre.y ∧ m.centre.y < imgH
  origin : 0 ≤ m.boxOrigin.x ∧ 0 ≤ m.boxOrigin.y
  inside : m.boxW ≤ imgW → m.boxH ≤ imgH →
    m.boxOrigin.x + m.boxW ≤ imgW ∧ m.boxOrigin.y + m.boxH ≤ imgH
  apart : (∃ dir, Fits imgW imgH m.centre m.boxW m.boxH dir) → ¬ m.Overlaps

section Arithmetic

theorem i32_eq {v : Int} (h : -2 ^ 31 ≤ v ∧ v < 2 ^ 31) : i32 v = some v := if_pos h

theorem u32_eq {v : Nat} (h : v < 2 ^ 32) : u32 v = some v := if_pos h

theorem asI32_eq {v : Nat} (h : v < 2 ^ 31) : asI32 v = v := if_pos h

theorem clamp_spec (v : Int) {lo hi : Int} (h : lo ≤ hi) :
    ∃ v', clamp v lo hi = some v' ∧ (lo ≤ v' ∧ v' ≤ hi) ∧ (lo ≤ v → v ≤ hi → v' = v) := by
  refine ⟨_, if_pos h, ?_⟩
  split
  · omega
  · split
    · omega
    · omega

theorem bind_some {α β : Type} {o : Option α} {a : α} {f : α → Option β} {b : β} (h : o = some a)
    (hrest : f a = some b) : o.bind f = some b :=
  Option.bind_eq_some_iff.mpr ⟨a, h, hrest⟩

end Arithmetic

section Steps

variable {imgW imgH : UInt32} {boxW boxH : Int} {c : Point}

theorem centre_spec (x y : Int) (hw : 1 ≤ imgW.toNat ∧ imgW.toNat < 2 ^ 30)
    (hh : 1 ≤ imgH.toNat ∧ imgH.toNat < 2 ^ 30) :
    ∃ c, centre imgW imgH x y = some c ∧ (0 ≤ c.x ∧ c.x < imgW.toNat) ∧ 0 ≤ c.y ∧ c.y < imgH.toNat := by
  have hasW : asI32 imgW.toNat = imgW.toNat := asI32_eq (by omega)
  have hasH : asI32 imgH.toNat = imgH.toNat := asI32_eq (by omega)
  obtain ⟨cx, hcx, hxrange, -⟩ := clamp_spec x (show (0 : Int) ≤ asI32 imgW.toNat - 1 by omega)
  obtain ⟨cy, hcy, hyrange, -⟩ := clamp_spec y (show (0 : Int) ≤ asI32 imgH.toNat - 1 by omega)
  refine ⟨⟨cx, cy⟩, ?_, ?_⟩
  · refine bind_some (i32_eq (by omega)) ?_
    refine bind_some hcx ?_
    refine bind_some (i32_eq (by omega)) ?_
    exact bind_some hcy rfl
  · dsimp only
    omega

theorem maxByKey_spec (first : Int × Dir) (rest : List (Int × Dir)) :
    maxByKey first rest ∈ first :: rest ∧ ∀ c ∈ first :: rest, c.1 ≤ (maxByKey first rest).1 := by
  induction rest generalizing first with
  | nil =>
    refine ⟨List.mem_singleton_self first, fun c hc => ?_⟩
    rw [List.mem_singleton.mp hc]
    exact Int.le_refl _
  | cons d rest ih =>
    rw [maxByKey, List.foldl_cons]
    split
    · rename_i hle
      obtain ⟨hmem, hmax⟩ := ih d
      refine ⟨List.mem_cons_of_mem _ hmem, List.forall_mem_cons.mpr ⟨?_, hmax⟩⟩
      exact Int.le_trans hle (hmax d List.mem_cons_self)
    · rename_i hlt
      obtain ⟨hmem, hmax⟩ := ih first
      have hfirst := hmax first List.mem_cons_self
      refine ⟨?_, List.forall_mem_cons.mpr ⟨hfirst, List.forall_mem_cons.mpr ⟨?_, ?_⟩⟩⟩
      · obtain heq | hin := List.mem_cons.mp hmem
        · exact List.mem_cons.mpr (.inl heq)
        · exact List.mem_cons_of_mem _ (List.mem_cons_of_mem _ hin)
      · exact Int.le_trans (Int.le_of_lt (Int.not_le.mp hlt)) hfirst
      · exact fun c hc => hmax c (List.mem_cons_of_mem _ hc)

/-- The best direction has room if any direction has. -/
theorem bestDirection_spec (hw : imgW.toNat < 2 ^ 30) (hh : imgH.toNat < 2 ^ 30)
    (hcx : 0 ≤ c.x ∧ c.x < imgW.toNat) (hcy : 0 ≤ c.y ∧ c.y < imgH.toNat) (hboxW : 0 ≤ boxW ∧ boxW < 2 ^ 30)
    (hboxH : 0 ≤ boxH ∧ boxH < 2 ^ 30) :
    ∃ dir, bestDirection c.x c.y imgW imgH boxW boxH = some dir ∧
      ∀ d, Fits imgW.toNat imgH.toNat c boxW boxH d → Fits imgW.toNat imgH.toNat c boxW boxH dir := by
  have hasW : asI32 imgW.toNat = imgW.toNat := asI32_eq (by omega)
  have hasH : asI32 imgH.toNat = imgH.toNat := asI32_eq (by omega)
  let score : Dir → Int
    | .right => imgW.toNat - c.x - (circleRadius + arrowGap + arrowLength + boxW)
    | .left => c.x - (circleRadius + arrowGap + arrowLength + boxW)
    | .down => imgH.toNat - c.y - (circleRadius + arrowGap + arrowLength + boxH)
    | .up => c.y - (circleRadius + arrowGap + arrowLength + boxH)
  have hfits : ∀ d, Fits imgW.toNat imgH.toNat c boxW boxH d ↔ 0 ≤ score d := by
    intro d
    cases d <;> simp only [Fits, score] <;> omega
  let scored : Dir → Int × Dir := fun d => (score d, d)
  obtain ⟨hmem, hmax⟩ := maxByKey_spec (scored .right) [scored .left, scored .down, scored .up]
  refine ⟨(maxByKey (scored .right) [scored .left, scored .down, scored .up]).2, ?_, fun d hd => ?_⟩
  · refine bind_some (i32_eq (by simp only [circleRadius, arrowGap, arrowLength]; omega)) ?_
    refine bind_some (i32_eq (by simp only [circleRadius, arrowGap, arrowLength]; omega)) ?_
    refine bind_some (i32_eq (by omega)) ?_
    refine bind_some (i32_eq (by simp only [circleRadius, arrowGap, arrowLength]; omega)) ?_
    refine bind_some (i32_eq (by simp only [circleRadius, arrowGap, arrowLength]; omega)) ?_
    refine bind_some (i32_eq (by omega)) ?_
    refine bind_some (i32_eq (by simp only [circleRadius, arrowGap, arrowLength]; omega)) ?_
    refine bind_some (i32_eq (by simp only [circleRadius, arrowGap, arrowLength]; omega)) ?_
    rw [hasW, hasH]
    rfl
  · have hbest := hmax (scored d) (by cases d <;> simp)
    have hself : ∀ e ∈ [scored .right, scored .left, scored .down, scored .up], e.1 = score e.2 := by
      intro e he
      simp only [List.mem_cons, List.not_mem_nil, or_false] at he
      obtain rfl | rfl | rfl | rfl := he <;> rfl
    rw [hself _ hmem] at hbest
    exact (hfits _).mpr (Int.le_trans ((hfits d).mp hd) hbest)

/-- The arrow in a direction, and the box at its end. -/
def arrowOf (c : Point) (boxW boxH : Int) : Dir → Arrow
  | .right =>
      let x₀ := c.x + circleRadius + arrowGap
      ⟨⟨x₀, c.y⟩, ⟨x₀ + arrowLength, c.y⟩, ⟨x₀ + arrowLength, c.y - boxH.tdiv 2⟩⟩
  | .left =>
      let x₀ := c.x - circleRadius - arrowGap
      ⟨⟨x₀, c.y⟩, ⟨x₀ - arrowLength, c.y⟩, ⟨x₀ - arrowLength - boxW, c.y - boxH.tdiv 2⟩⟩
  | .down =>
      let y₀ := c.y + circleRadius + arrowGap
      ⟨⟨c.x, y₀⟩, ⟨c.x, y₀ + arrowLength⟩, ⟨c.x - boxW.tdiv 2, y₀ + arrowLength⟩⟩
  | .up =>
      let y₀ := c.y - circleRadius - arrowGap
      ⟨⟨c.x, y₀⟩, ⟨c.x, y₀ - arrowLength⟩, ⟨c.x - boxW.tdiv 2, y₀ - arrowLength - boxH⟩⟩

theorem tdiv_two {v : Int} (h : 0 ≤ v) : 0 ≤ v.tdiv 2 ∧ v.tdiv 2 ≤ v := by
  rw [Int.tdiv_eq_ediv_of_nonneg h]
  omega

theorem arrowAndBox_eq (hcx : 0 ≤ c.x ∧ c.x < 2 ^ 30) (hcy : 0 ≤ c.y ∧ c.y < 2 ^ 30)
    (hboxW : 0 ≤ boxW ∧ boxW < 2 ^ 30) (hboxH : 0 ≤ boxH ∧ boxH < 2 ^ 30) (dir : Dir) :
    arrowAndBox c.x c.y boxW boxH dir = some (arrowOf c boxW boxH dir) := by
  have hw := tdiv_two hboxW.1
  have hh := tdiv_two hboxH.1
  cases dir with
  | right =>
    refine bind_some (i32_eq (by simp only [circleRadius]; omega)) ?_
    refine bind_some (i32_eq (by simp only [circleRadius, arrowGap]; omega)) ?_
    refine bind_some (i32_eq (by simp only [circleRadius, arrowGap, arrowLength]; omega)) ?_
    exact bind_some (i32_eq (by omega)) rfl
  | left =>
    refine bind_some (i32_eq (by simp only [circleRadius]; omega)) ?_
    refine bind_some (i32_eq (by simp only [circleRadius, arrowGap]; omega)) ?_
    refine bind_some (i32_eq (by simp only [circleRadius, arrowGap, arrowLength]; omega)) ?_
    refine bind_some (i32_eq (by simp only [circleRadius, arrowGap, arrowLength]; omega)) ?_
    exact bind_some (i32_eq (by omega)) rfl
  | down =>
    refine bind_some (i32_eq (by simp only [circleRadius]; omega)) ?_
    refine bind_some (i32_eq (by simp only [circleRadius, arrowGap]; omega)) ?_
    refine bind_some (i32_eq (by simp only [circleRadius, arrowGap, arrowLength]; omega)) ?_
    exact bind_some (i32_eq (by omega)) rfl
  | up =>
    refine bind_some (i32_eq (by simp only [circleRadius]; omega)) ?_
    refine bind_some (i32_eq (by simp only [circleRadius, arrowGap]; omega)) ?_
    refine bind_some (i32_eq (by simp only [circleRadius, arrowGap, arrowLength]; omega)) ?_
    refine bind_some (i32_eq (by omega)) ?_
    exact bind_some (i32_eq (by simp only [circleRadius, arrowGap, arrowLength]; omega)) rfl

/-- A point that is far from the ends of the range. -/
def Near (p : Point) : Prop := (-2 ^ 30 ≤ p.x ∧ p.x < 2 ^ 30 + 2 ^ 10) ∧ -2 ^ 30 ≤ p.y ∧ p.y < 2 ^ 30 + 2 ^ 10

theorem arrowOf_near (hcx : 0 ≤ c.x ∧ c.x < 2 ^ 30) (hcy : 0 ≤ c.y ∧ c.y < 2 ^ 30) (dir : Dir) :
    Near (arrowOf c boxW boxH dir).start ∧ Near (arrowOf c boxW boxH dir).tip := by
  cases dir <;> simp only [arrowOf, Near, circleRadius, arrowGap, arrowLength] <;> omega

/-- The clamped box is in the image if it can be, and stays where it is along an axis on
which it is in the image already. -/
theorem clampBox_spec (origin : Point) {w h : Int} (hw : 0 ≤ w ∧ w < 2 ^ 30) (hh : 0 ≤ h ∧ h < 2 ^ 30)
    (hboxW : 0 ≤ boxW ∧ boxW < 2 ^ 30) (hboxH : 0 ≤ boxH ∧ boxH < 2 ^ 30) :
    ∃ p, clampBox origin boxW boxH w h = some p ∧ (0 ≤ p.x ∧ p.x ≤ max (w - boxW) 0) ∧
      (0 ≤ p.y ∧ p.y ≤ max (h - boxH) 0) ∧ (0 ≤ origin.x → origin.x + boxW ≤ w → p.x = origin.x) ∧
      (0 ≤ origin.y → origin.y + boxH ≤ h → p.y = origin.y) := by
  obtain ⟨x, hx, hxrange, hxsame⟩ := clamp_spec origin.x (show 0 ≤ max (w - boxW) 0 from Int.le_max_right _ _)
  obtain ⟨y, hy, hyrange, hysame⟩ := clamp_spec origin.y (show 0 ≤ max (h - boxH) 0 from Int.le_max_right _ _)
  refine ⟨⟨x, y⟩, ?_, hxrange, hyrange, fun h₀ h₁ => hxsame h₀ (by omega), fun h₀ h₁ => hysame h₀ (by omega)⟩
  refine bind_some (i32_eq (by omega)) ?_
  refine bind_some hx ?_
  refine bind_some (i32_eq (by omega)) ?_
  exact bind_some hy rfl

theorem moved_spec {p : Point} (h : Near p) {dx dy : Int} (hdx : -2 ^ 10 ≤ dx ∧ dx ≤ 2 ^ 10)
    (hdy : -2 ^ 10 ≤ dy ∧ dy ≤ 2 ^ 10) : ∃ q, p.moved dx dy = some q := by
  simp only [Near] at h
  refine ⟨⟨p.x + dx, p.y + dy⟩, ?_⟩
  refine bind_some (i32_eq (by omega)) ?_
  exact bind_some (i32_eq (by omega)) rfl

theorem mapM_spec {α β : Type} {f : α → Option β} {xs : List α} (h : ∀ x ∈ xs, ∃ y, f x = some y) :
    ∃ ys, xs.mapM f = some ys := by
  induction xs with
  | nil => exact ⟨[], rfl⟩
  | cons x xs ih =>
    obtain ⟨⟨y, hy⟩, hxs⟩ := List.forall_mem_cons.mp h
    obtain ⟨ys, hys⟩ := ih hxs
    refine ⟨y :: ys, ?_⟩
    rw [List.mapM_cons]
    exact bind_some hy (bind_some hys rfl)

theorem shaft_spec {a : Arrow} (hstart : Near a.start) (htip : Near a.tip) (dir : Dir) :
    ∃ ls, shaft a dir = some ls := by
  refine mapM_spec fun off hoff => ?_
  have hunit : off = 0 ∨ off = 1 := by simpa using hoff
  have hline : ∀ ox oy : Int, 0 ≤ ox ∧ ox ≤ 1 → 0 ≤ oy ∧ oy ≤ 1 →
      ∃ l : Line, (do return (⟨← a.start.moved ox oy, ← a.tip.moved ox oy⟩ : Line)) = some l := by
    intro ox oy hox hoy
    obtain ⟨p, hp⟩ := moved_spec hstart (show -2 ^ 10 ≤ ox ∧ ox ≤ 2 ^ 10 by omega)
      (show -2 ^ 10 ≤ oy ∧ oy ≤ 2 ^ 10 by omega)
    obtain ⟨q, hq⟩ := moved_spec htip (show -2 ^ 10 ≤ ox ∧ ox ≤ 2 ^ 10 by omega)
      (show -2 ^ 10 ≤ oy ∧ oy ≤ 2 ^ 10 by omega)
    exact ⟨⟨p, q⟩, bind_some hp (bind_some hq rfl)⟩
  cases dir with
  | right | left => exact hline 0 off (by omega) (by omega)
  | down | up => exact hline off 0 (by omega) (by omega)

theorem drawArrowhead_spec {tip : Point} (h : Near tip) (dir : Dir) :
    ∃ ls, drawArrowhead tip dir = some ls := by
  refine mapM_spec fun (dx, dy) hmem => ?_
  have hend : ∀ dir, ∀ e ∈ armEnds dir, (-2 ^ 10 ≤ e.1 ∧ e.1 ≤ 2 ^ 10) ∧ -2 ^ 10 ≤ e.2 ∧ e.2 ≤ 2 ^ 10 := by
    intro dir
    cases dir <;> decide
  obtain ⟨hdx, hdy⟩ := hend dir _ hmem
  obtain ⟨q, hq⟩ := moved_spec h hdx hdy
  exact ⟨⟨tip, q⟩, bind_some hq rfl⟩

/-- The width of a text in the font: a glyph for each character and a gap between two. -/
theorem textPixelWidth_eq {text : String} (h : 12 * text.length < 2 ^ 30) :
    textPixelWidth text = some (12 * text.length - 2) := by
  have hn : text.length % 2 ^ 32 = text.length := Nat.mod_eq_of_lt (by omega)
  rw [textPixelWidth, hn]
  by_cases hempty : text.length = 0
  · rw [if_pos hempty, hempty]
  · rw [if_neg hempty]
    have hc : charW = 10 ∧ charSp = 2 := ⟨rfl, rfl⟩
    refine bind_some (u32_eq (by rw [hc.1]; omega)) ?_
    refine bind_some (u32_eq (by rw [hc.2]; omega)) ?_
    rw [u32_eq (by rw [hc.1, hc.2]; omega), hc.1, hc.2]
    congr 1
    omega

/-- A box of less than 2 ^ 30 pixels is placed validly around every pixel. -/
theorem place_valid (hw : imgW.toNat < 2 ^ 30) (hh : imgH.toNat < 2 ^ 30) (hcx : 0 ≤ c.x ∧ c.x < imgW.toNat)
    (hcy : 0 ≤ c.y ∧ c.y < imgH.toNat) {text : String} (htext : 12 * text.length + 14 < 2 ^ 30) :
    ∃ m, place imgW imgH c text = some m ∧ m.Valid imgW.toNat imgH.toNat := by
  have hasW : asI32 imgW.toNat = imgW.toNat := asI32_eq (by omega)
  have hasH : asI32 imgH.toNat = imgH.toNat := asI32_eq (by omega)
  have hwidth := textPixelWidth_eq (show 12 * text.length < 2 ^ 30 by omega)
  have hasT : asI32 (12 * text.length - 2) = (12 * text.length - 2 : Nat) := asI32_eq (by omega)
  have hpad : boxPad = 8 ∧ asI32 charH = 14 := ⟨rfl, rfl⟩
  obtain ⟨boxW, hboxW⟩ : ∃ boxW : Int, boxW = (12 * text.length - 2 : Nat) + boxPad * 2 := ⟨_, rfl⟩
  obtain ⟨boxH, hboxH⟩ : ∃ boxH : Int, boxH = asI32 charH + boxPad * 2 := ⟨_, rfl⟩
  have hwrange : 0 ≤ boxW ∧ boxW < 2 ^ 30 := by rw [hboxW, hpad.1]; omega
  have hhrange : 0 ≤ boxH ∧ boxH < 2 ^ 30 := by rw [hboxH, hpad.1, hpad.2]; omega
  have hx : 0 ≤ c.x ∧ c.x < 2 ^ 30 := by omega
  have hy : 0 ≤ c.y ∧ c.y < 2 ^ 30 := by omega
  obtain ⟨dir, hdir, hbest⟩ := bestDirection_spec hw hh hcx hcy hwrange hhrange
  have harrow := arrowAndBox_eq hx hy hwrange hhrange dir
  have hnear : Near (arrowOf c boxW boxH dir).start ∧ Near (arrowOf c boxW boxH dir).tip :=
    arrowOf_near hx hy dir
  obtain ⟨origin, horigin, hox, hoy, hsameX, hsameY⟩ := clampBox_spec (arrowOf c boxW boxH dir).box
    (show (0 : Int) ≤ imgW.toNat ∧ (imgW.toNat : Int) < 2 ^ 30 by omega)
    (show (0 : Int) ≤ imgH.toNat ∧ (imgH.toNat : Int) < 2 ^ 30 by omega) hwrange hhrange
  have hnearOrigin : Near origin := by
    simp only [Near]
    omega
  obtain ⟨lines, hlines⟩ := shaft_spec hnear.1 hnear.2 dir
  obtain ⟨head, hhead⟩ := drawArrowhead_spec hnear.2 dir
  obtain ⟨border, hborder⟩ := moved_spec hnearOrigin (show -2 ^ 10 ≤ (1 : Int) ∧ (1 : Int) ≤ 2 ^ 10 by decide)
    (show -2 ^ 10 ≤ (1 : Int) ∧ (1 : Int) ≤ 2 ^ 10 by decide)
  obtain ⟨corner, hcorner⟩ := moved_spec hnearOrigin (show -2 ^ 10 ≤ boxPad ∧ boxPad ≤ 2 ^ 10 by decide)
    (show -2 ^ 10 ≤ boxPad ∧ boxPad ≤ 2 ^ 10 by decide)
  refine ⟨⟨c, dir, arrowOf c boxW boxH dir, lines, head, origin, boxW, boxH, border, corner⟩, ?_, ?_⟩
  · refine bind_some hwidth ?_
    rw [hasT, hasW, hasH, ← hboxW, ← hboxH]
    refine bind_some (i32_eq (by omega)) ?_
    refine bind_some (i32_eq (by omega)) ?_
    refine bind_some hdir ?_
    refine bind_some harrow ?_
    refine bind_some horigin ?_
    refine bind_some hlines ?_
    refine bind_some hhead ?_
    refine bind_some hborder ?_
    exact bind_some hcorner rfl
  · refine ⟨⟨hcx, hcy⟩, ⟨hox.1, hoy.1⟩, fun hfitW hfitH => ?_, ?_⟩
    · dsimp only at hfitW hfitH ⊢
      omega
    · -- The box is not moved along the axis of an arrow that has room.
      rintro ⟨d, hd⟩ ⟨p, hpx, hpy, hcircleX, hcircleY⟩
      have hroom := hbest d hd
      dsimp only at hpx hpy hcircleX hcircleY
      cases dir with
      | right | left =>
        simp only [Fits, arrowOf, circleRadius, arrowGap, arrowLength] at hroom hsameX hcircleX
        omega
      | down | up =>
        simp only [Fits, arrowOf, circleRadius, arrowGap, arrowLength] at hroom hsameY hcircleY
        omega

end Steps

section Labels

/-- A number of `k` digits is written with a sign at most in addition. -/
theorem length_repr_le {v : Int} {k : Nat} (hk : 0 < k) (h : v.natAbs < 10 ^ k) : v.repr.length ≤ k + 1 := by
  cases v with
  | ofNat n =>
    have hdigits : n.repr.length ≤ k := (Nat.length_repr_le_iff hk).mpr h
    exact Nat.le_succ_of_le hdigits
  | negSucc n =>
    have hdigits : (n + 1).repr.length ≤ k := (Nat.length_repr_le_iff hk).mpr h
    have hsign : "-".length = 1 := rfl
    change ("-" ++ (n + 1).repr).length ≤ k + 1
    rw [String.length_append]
    omega

theorem length_label {x y : Int} (hx : -2 ^ 31 ≤ x ∧ x < 2 ^ 31) (hy : -2 ^ 31 ≤ y ∧ y < 2 ^ 31) :
    (label x y).length ≤ 30 := by
  have hxlength : x.repr.length ≤ 11 := length_repr_le (by decide) (by omega)
  have hylength : y.repr.length ≤ 11 := length_repr_le (by decide) (by omega)
  have hparts : "X: ".length = 3 ∧ "  Y: ".length = 5 := ⟨rfl, rfl⟩
  have hlabel : label x y = "X: " ++ x.repr ++ "  Y: " ++ y.repr := rfl
  rw [hlabel, String.length_append, String.length_append, String.length_append]
  omega

end Labels

/-- Around every click and every cursor the marker can be computed and is drawn validly,
with the label that shows the position and with every other that the arithmetic can hold. -/
theorem marker_valid (imgW imgH : UInt32) (x y : Int32) (hw : 1 ≤ imgW.toNat ∧ imgW.toNat < 2 ^ 30)
    (hh : 1 ≤ imgH.toNat ∧ imgH.toNat < 2 ^ 30) :
    (∃ m, mark imgW imgH x y = some m ∧ m.Valid imgW.toNat imgH.toNat) ∧
      (∃ m, markType imgW imgH x y = some m ∧ m.Valid imgW.toNat imgH.toNat) ∧
      ∃ c, centre imgW imgH x.toInt y.toInt = some c ∧ ∀ text : String, 12 * text.length + 14 < 2 ^ 30 →
        ∃ m, place imgW imgH c text = some m ∧ m.Valid imgW.toNat imgH.toNat := by
  obtain ⟨c, hc, hcx, hcy⟩ := centre_spec x.toInt y.toInt hw hh
  have htexts : ∀ text : String, 12 * text.length + 14 < 2 ^ 30 →
      ∃ m, place imgW imgH c text = some m ∧ m.Valid imgW.toNat imgH.toNat :=
    fun text htext => place_valid hw.2 hh.2 hcx hcy htext
  refine ⟨?_, ?_, c, hc, htexts⟩
  · have hlength := length_label ⟨x.le_toInt, x.toInt_lt⟩ ⟨y.le_toInt, y.toInt_lt⟩
    obtain ⟨m, hm, hvalid⟩ := htexts (label x.toInt y.toInt) (by omega)
    exact ⟨m, bind_some hc hm, hvalid⟩
  · have hlength := length_label (x := c.x) (y := c.y) (by omega) (by omega)
    obtain ⟨m, hm, hvalid⟩ := htexts (label c.x c.y) (by omega)
    exact ⟨m, bind_some hc hm, hvalid⟩

theorem marker_valid_sample :
    (∃ m, mark 1920 1080 (-5) 2000 = some m ∧ m.Valid (1920 : UInt32).toNat (1080 : UInt32).toNat) ∧
      (∃ m, markType 1920 1080 (-5) 2000 = some m ∧ m.Valid (1920 : UInt32).toNat (1080 : UInt32).toNat) ∧
      ∃ c, centre 1920 1080 (-5 : Int32).toInt (2000 : Int32).toInt = some c ∧
        ∀ text : String, 12 * text.length + 14 < 2 ^ 30 →
          ∃ m, place 1920 1080 c text = some m ∧ m.Valid (1920 : UInt32).toNat (1080 : UInt32).toNat :=
  marker_valid 1920 1080 (-5) 2000 ⟨by decide, by decide⟩ ⟨by decide, by decide⟩

end MemoryArchive.Vision
