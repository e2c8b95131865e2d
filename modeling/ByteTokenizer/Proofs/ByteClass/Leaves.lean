/-
  LEAVES: what a conjunction of conjunctions comes down to.

  A range may nest conjunctions to any depth.  At the end of every branch stands a leaf, which is
  an interval or accepts nothing, and a byte is accepted exactly if all leaves accept it
  (`accepts_iff_leaves`).

  So a conjunction may be written in many ways.  Its parts may change places, a part may be
  repeated, a conjunction among the parts may be replaced by its own parts, a single part needs no
  conjunction around it, and all this may be done inside a part (`Regroups`).  A range can be made
  from another one by such changes exactly if both have the same leaves (`regrouped_iff`): any
  range can be changed into the conjunction of its leaves, and for a conjunction without inner
  ones only the set of its parts matters.
-/
import ByteTokenizer.ByteClass.Range
import Mathlib.Logic.Relation

namespace ByteTokenizer.Range

/-- Induction over a range, in which a conjunction may use what holds of its parts. -/
@[elab_as_elim]
theorem parts_induction {motive : Range → Prop}
    (interval : ∀ lo hi, motive (.interval lo hi))
    (allOf : ∀ parts, (∀ part ∈ parts, motive part) → motive (.allOf parts))
    (never : motive .never) (r : Range) : motive r :=
  @Range.rec motive (fun parts => ∀ part ∈ parts, motive part) interval allOf never
    (List.forall_mem_nil motive)
    (fun _ _ hpart hparts => List.forall_mem_cons.2 ⟨hpart, hparts⟩) r

/-! ## The leaves of a range -/

/-- A range that has no parts. -/
inductive Leaf where
  /-- The bytes from `lo` to `hi`, both included. -/
  | interval (lo hi : Byte)
  /-- No byte at all. -/
  | never
deriving DecidableEq

/-- The leaf as a range. -/
def Leaf.range : Leaf → Range
  | interval lo hi => .interval lo hi
  | never => .never

mutual

/-- The leaves of the range, from left to right. -/
def leaves : Range → List Leaf
  | interval lo hi => [.interval lo hi]
  | allOf parts => leavesOfAll parts
  | never => [.never]

/-- The leaves of the ranges of a list. -/
def leavesOfAll : List Range → List Leaf
  | [] => []
  | part :: parts => leaves part ++ leavesOfAll parts

end

theorem leavesOfAll_eq_flatMap (parts : List Range) : leavesOfAll parts = parts.flatMap leaves := by
  induction parts with
  | nil => rfl
  | cons part parts ih => rw [leavesOfAll, ih, List.flatMap_cons]

theorem leaves_allOf (parts : List Range) : (allOf parts).leaves = parts.flatMap leaves := by
  rw [leaves, leavesOfAll_eq_flatMap]

-- a conjunction of nothing has no leaves
example : (allOf [interval 0x30 0x39, allOf [allOf [], never]]).leaves
    = [.interval 0x30 0x39, .never] := rfl

/-- A range accepts what all its leaves accept. -/
theorem accepts_iff_leaves (r : Range) (b : Byte) :
    r.accepts b = true ↔ ∀ leaf ∈ r.leaves, leaf.range.accepts b = true := by
  induction r using parts_induction with
  | interval lo hi => rw [leaves, List.forall_mem_singleton, Leaf.range]
  | allOf parts ih =>
    rw [accepts_allOf, List.all_eq_true, leaves_allOf, List.forall_mem_flatMap]
    exact forall₂_congr ih
  | never => rw [leaves, List.forall_mem_singleton, Leaf.range]

/-! ## Ways to write a conjunction -/

/-- One change of how a conjunction is written. -/
inductive Regroups : Range → Range → Prop where
  /-- The parts change places. -/
  | order {parts parts' : List Range} (h : parts.Perm parts') :
      Regroups (allOf parts) (allOf parts')
  /-- A part that is there anyway is left out. -/
  | repeated {part : Range} {parts : List Range} (h : part ∈ parts) :
      Regroups (allOf (part :: parts)) (allOf parts)
  /-- A conjunction among the parts is replaced by its own parts. -/
  | nested (inner parts : List Range) :
      Regroups (allOf (allOf inner :: parts)) (allOf (inner ++ parts))
  /-- A single part stands for itself. -/
  | alone (part : Range) : Regroups (allOf [part]) part
  /-- A part is changed. -/
  | inside {part part' : Range} (parts : List Range) (h : Regroups part part') :
      Regroups (allOf (part :: parts)) (allOf (part' :: parts))

/-- One range is made from the other by any number of such changes, forward or backward. -/
def Regrouped : Range → Range → Prop := Relation.EqvGen Regroups

/-- A change leaves the set of the leaves as it is. -/
theorem Regroups.mem_leaves_iff {r s : Range} (h : Regroups r s) (leaf : Leaf) :
    leaf ∈ r.leaves ↔ leaf ∈ s.leaves := by
  induction h with
  | order h =>
    rw [leaves_allOf, leaves_allOf]
    exact (h.flatMap_right leaves).mem_iff
  | @repeated part parts h =>
    rw [leaves_allOf, leaves_allOf, List.flatMap_cons, List.mem_append]
    exact or_iff_right_of_imp fun hleaf => List.mem_flatMap_of_mem h hleaf
  | nested inner parts =>
    rw [leaves_allOf, leaves_allOf, List.flatMap_cons, List.flatMap_append, leaves_allOf]
  | alone part => rw [leaves_allOf, List.flatMap_singleton]
  | inside parts h ih =>
    rw [leaves_allOf, leaves_allOf, List.flatMap_cons, List.flatMap_cons, List.mem_append,
      List.mem_append, ih]

namespace Regrouped

variable {r s t : Range} {parts parts' : List Range}

theorem refl (r : Range) : Regrouped r r := Relation.EqvGen.refl r

theorem symm (h : Regrouped r s) : Regrouped s r := Relation.EqvGen.symm r s h

theorem trans (h : Regrouped r s) (h' : Regrouped s t) : Regrouped r t :=
  Relation.EqvGen.trans r s t h h'

theorem of_regroups (h : Regroups r s) : Regrouped r s := .rel r s h

theorem of_perm (h : parts.Perm parts') : Regrouped (allOf parts) (allOf parts') :=
  of_regroups (.order h)

/-- A part may be changed any number of times. -/
theorem inside (h : Regrouped r s) (parts : List Range) :
    Regrouped (allOf (r :: parts)) (allOf (s :: parts)) := by
  induction h with
  | rel r s h => exact of_regroups (.inside parts h)
  | refl r => exact refl _
  | symm r s _ ih => exact ih.symm
  | trans r s t _ _ ih ih' => exact ih.trans ih'

/-- Parts that are there anyway may be left out. -/
theorem of_repeated {more : List Range} (h : ∀ part ∈ more, part ∈ parts) :
    Regrouped (allOf (more ++ parts)) (allOf parts) := by
  induction more with
  | nil => exact refl _
  | cons part more ih =>
    obtain ⟨hpart, hmore⟩ := List.forall_mem_cons.1 h
    exact (of_regroups (.repeated (List.mem_append_right more hpart))).trans (ih hmore)

/-- Only the set of the parts matters. -/
theorem of_mem_iff (h : ∀ part, part ∈ parts ↔ part ∈ parts') :
    Regrouped (allOf parts) (allOf parts') := by
  have hparts : Regrouped (allOf (parts' ++ parts)) (allOf parts) :=
    of_repeated fun part hpart => (h part).2 hpart
  have hparts' : Regrouped (allOf (parts ++ parts')) (allOf parts') :=
    of_repeated fun part hpart => (h part).1 hpart
  exact hparts.symm.trans ((of_perm List.perm_append_comm).trans hparts')

/-- Parts may be replaced by their leaves if each of them is the conjunction of its leaves. -/
theorem of_parts (h : ∀ part ∈ parts, Regrouped part (allOf (part.leaves.map Leaf.range)))
    (others : List Range) :
    Regrouped (allOf (parts ++ others))
      (allOf ((parts.flatMap leaves).map Leaf.range ++ others)) := by
  induction parts generalizing others with
  | nil => exact refl _
  | cons part parts ih =>
    obtain ⟨hpart, hparts⟩ := List.forall_mem_cons.1 h
    rw [List.flatMap_cons, List.map_append]
    have hfirst : Regrouped (allOf (part :: (parts ++ others)))
        (allOf (part.leaves.map Leaf.range ++ (parts ++ others))) :=
      (hpart.inside _).trans (of_regroups (.nested _ _))
    -- the leaves of the first part wait behind the other parts
    have hback : Regrouped (allOf (part.leaves.map Leaf.range ++ (parts ++ others)))
        (allOf (parts ++ (part.leaves.map Leaf.range ++ others))) :=
      of_perm (List.perm_append_comm_assoc _ _ _)
    have hfront : Regrouped
        (allOf ((parts.flatMap leaves).map Leaf.range ++ (part.leaves.map Leaf.range ++ others)))
        (allOf (part.leaves.map Leaf.range ++ (parts.flatMap leaves).map Leaf.range ++ others)) := by
      rw [List.append_assoc]
      exact of_perm (List.perm_append_comm_assoc _ _ _)
    exact ((hfirst.trans hback).trans (ih hparts _)).trans hfront

end Regrouped

/-- Every range can be changed into the conjunction of its leaves. -/
theorem regrouped_leaves (r : Range) : Regrouped r (allOf (r.leaves.map Leaf.range)) := by
  induction r using parts_induction with
  | interval lo hi => exact (Regrouped.of_regroups (.alone (.interval lo hi))).symm
  | allOf parts ih =>
    have hparts := Regrouped.of_parts ih []
    rwa [List.append_nil, List.append_nil, ← leaves_allOf] at hparts
  | never => exact (Regrouped.of_regroups (.alone .never)).symm

/-- Ranges are made from each other by changes of order, repetition and nesting exactly if they
    have the same leaves. -/
theorem regrouped_iff {r s : Range} :
    Regrouped r s ↔ ∀ leaf, leaf ∈ r.leaves ↔ leaf ∈ s.leaves := by
  constructor
  · intro h leaf
    induction h with
    | rel r s h => exact h.mem_leaves_iff leaf
    | refl r => exact Iff.rfl
    | symm r s _ ih => exact ih.symm
    | trans r s t _ _ ih ih' => exact ih.trans ih'
  · intro h
    have hleaves : ∀ part, part ∈ r.leaves.map Leaf.range ↔ part ∈ s.leaves.map Leaf.range := by
      intro part
      rw [List.mem_map, List.mem_map]
      exact exists_congr fun leaf => and_congr_left fun _ => h leaf
    exact (regrouped_leaves r).trans ((Regrouped.of_mem_iff hleaves).trans (regrouped_leaves s).symm)

/-- However a conjunction is written, it accepts the same bytes. -/
theorem Regrouped.accepts_eq {r s : Range} (h : Regrouped r s) (b : Byte) :
    s.accepts b = r.accepts b := by
  rw [Bool.eq_iff_iff, accepts_iff_leaves, accepts_iff_leaves]
  exact forall_congr' fun leaf => imp_congr_left (regrouped_iff.1 h leaf).symm

end ByteTokenizer.Range
