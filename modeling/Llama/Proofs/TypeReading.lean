import Llama.Proofs.ScanSteps
import Llama.Proofs.Unparsing

/-!
# Reading types

What `tyWords` writes is read back as the same type, by each of the parsers that may stand at the
start of a type.
-/

namespace Llama.Proofs

open Llama.Parser Llama.Grammar

variable {d : Deeper} {ty : Ty} {n : Nat}

/-- What follows a type does not extend it. -/
def endsType (k : Option TokenKind) : Prop := k ≠ some .kwRef ∧ k ≠ some .arrow

lemma reads_typeAtom_word (hatom : tyIsAtom ty = true) (hw : tyWritable ty) :
    Reads (typeAtom d) (tyWords ty) (fun _ => True) (fun t => t = ty) := by
  unfold typeAtom
  cases ty with
  | bool => exact reads_peekKind_bind (reads_advance_bind fun _ _ => reads_pure rfl)
  | char => exact reads_peekKind_bind (reads_advance_bind fun _ _ => reads_pure rfl)
  | float => exact reads_peekKind_bind (reads_advance_bind fun _ _ => reads_pure rfl)
  | int => exact reads_peekKind_bind (reads_advance_bind fun _ _ => reads_pure rfl)
  | unit => exact reads_peekKind_bind (reads_advance_bind fun _ _ => reads_pure rfl)
  | string => exact reads_peekKind_bind (reads_genid_bind fun _ => reads_pure rfl)
  | user name =>
    refine reads_peekKind_bind (reads_genid_bind fun _ => reads_pure ?_)
    have hname : Ty.builtin? name = none := hw
    rw [namedType, hname]
    rfl
  | array element dims => simp [tyIsAtom] at hatom
  | func source target => simp [tyIsAtom] at hatom
  | ref inner => simp [tyIsAtom] at hatom

/-- The number of stars is that of the dimensions. -/
lemma reads_dimensions {dims : Nat} (hdims : 0 < dims) :
    Reads dimensions (dimensionWords dims) (fun k => k = some .kwOf) (fun n => n = dims) := by
  unfold dimensions dimensionWords
  by_cases hone : dims = 1
  · rw [if_pos hone]
    refine reads_isAt_other_bind (fun k hk => ?_) (reads_pure hone.symm)
    rw [hk]
    simp [firstKind]
  · rw [if_neg hone]
    refine reads_isAt_bind ?_
    have hne : List.replicate dims () ≠ [] := by
      simp
      omega
    have hstars : Reads (separated .comma (expect .times))
        (separatedWords (terminal .comma) ((List.replicate dims ()).map
          fun _ => [terminal .times]))
        (fun k => k = some .rBracket)
        (fun stars => stars.map (fun _ => ()) = (List.replicate dims ()).map fun _ => ()) := by
      refine reads_separated (fun _ => True) _ hne (fun _ _ => ?_) trivial (fun k hk => ?_)
      · exact (reads_expect .times _).mono (fun _ h => h) (fun _ _ => rfl)
      · rw [hk]
        simp
    refine reads_bind_last (reads_between hstars rfl) (fun stars hlen => reads_pure ?_)
    simpa using congrArg List.length hlen

/-- Without a `ref` after it, an atom is a whole operand. -/
lemma reads_typeOperand_of_atom {ws : List Word}
    (h : Reads (typeAtom d) ws (fun k => k ≠ some .kwRef) (fun t => t = ty)) :
    Reads (typeOperand d) ws (fun k => k ≠ some .kwRef) (fun t => t = ty) := by
  unfold typeOperand
  refine reads_bind_last h (fun inner hinner => ?_)
  refine reads_bind_last (reads_many_none fun k hk => ?_) (fun refs hrefs => reads_pure ?_)
  · cases k with
    | none => rfl
    | some kind => simpa using hk
  · rw [hrefs, hinner]
    rfl

/-- Without an arrow after it, an operand is a whole type. -/
lemma reads_arrowType_of_operand {ws : List Word}
    (h : Reads (typeOperand d) ws (fun k => k ≠ some .kwRef) (fun t => t = ty)) :
    Reads (arrowType d) ws endsType (fun t => t = ty) := by
  unfold arrowType
  refine reads_bind_last (h.mono (fun _ hk => hk.1) fun _ ht => ht) (fun source hsource => ?_)
  exact reads_isAt_other_bind (fun k hk => hk.2) (reads_pure hsource)

/-- A type is read back at every level that has room for it. -/
def TypeReads (ty : Ty) : Prop :=
  ∀ n, tyLevels ty ≤ n →
    Reads (arrowType (deeper n)) (tyWords ty) endsType (fun t => t = ty)

/-- A type that is an atom or stands in parentheses is read as an atom. -/
lemma reads_typeAtom (h : TypeReads ty) (hw : tyWritable ty)
    (hn : wrapLevels (tyIsAtom ty) (tyLevels ty) ≤ n) :
    Reads (typeAtom (deeper n)) (wrap (tyIsAtom ty) (tyWords ty)) (fun _ => True)
      (fun t => t = ty) := by
  cases hatom : tyIsAtom ty with
  | true => exact reads_typeAtom_word hatom hw
  | false =>
    have hlevels := wrapLevels_le.mp hn hatom
    obtain ⟨m, rfl⟩ : ∃ m, n = m + 1 := ⟨n - 1, by omega⟩
    rw [typeAtom, deeper_succ]
    refine reads_peekKind_bind ?_
    exact reads_between (h m (by omega)) (by simp [endsType])

lemma reads_typeOperand (h : TypeReads ty) (hw : tyWritable ty)
    (hn : wrapLevels (tyIsAtom ty) (tyLevels ty) ≤ n) :
    Reads (typeOperand (deeper n)) (wrap (tyIsAtom ty) (tyWords ty)) (fun k => k ≠ some .kwRef)
      (fun t => t = ty) :=
  reads_typeOperand_of_atom ((reads_typeAtom h hw hn).mono (fun _ _ => trivial) fun _ ht => ht)

/-- A type in parentheses, or an atom, one level further down. -/
lemma reads_deeper_ty_wrapped (h : TypeReads ty) (hw : tyWritable ty)
    (hn : wrapLevels (tyIsAtom ty) (tyLevels ty) + 1 ≤ n) :
    Reads (deeper n).ty (wrap (tyIsAtom ty) (tyWords ty)) endsType (fun t => t = ty) := by
  obtain ⟨m, rfl⟩ : ∃ m, n = m + 1 := ⟨n - 1, by omega⟩
  rw [deeper_succ]
  exact reads_arrowType_of_operand (reads_typeOperand h hw (by omega))

lemma typeReads_array {element : Ty} {dims : Nat} (h : TypeReads element)
    (hw : tyWritable (.array element dims)) : TypeReads (.array element dims) := by
  intro n hn
  rw [tyLevels] at hn
  obtain ⟨m, rfl⟩ : ∃ m, n = m + 1 := ⟨n - 1, by omega⟩
  have harray : Reads (arrayType (deeper m)) (tyWords (.array element dims))
      (fun k => k ≠ some .kwRef) (fun t => t = .array element dims) := by
    unfold arrayType
    rw [tyWords]
    refine reads_expect_bind fun _ _ => ?_
    refine reads_bind (reads_dimensions hw.1) (fun count hcount => ?_) (fun _ _ => rfl)
    refine reads_expect_bind fun _ _ => ?_
    refine reads_bind_last (reads_typeOperand h hw.2 (by omega)) (fun t ht => reads_pure ?_)
    rw [hcount, ht]
  refine reads_arrowType_of_operand (reads_typeOperand_of_atom ?_)
  rw [typeAtom, deeper_succ]
  exact reads_peekKind_bind harray

lemma typeReads_func {source target : Ty} (hs : TypeReads source) (ht : TypeReads target)
    (hw : tyWritable (.func source target)) : TypeReads (.func source target) := by
  intro n hn
  rw [tyLevels] at hn
  unfold arrowType
  rw [tyWords]
  refine reads_bind (reads_typeOperand hs hw.1 (by omega)) (fun t hsource => ?_)
    (fun _ _ => by simp [firstKind])
  refine reads_isAt_bind (reads_expect_bind fun _ _ => ?_)
  refine reads_bind_last (reads_deeper_ty_wrapped ht hw.2 (by omega))
    (fun t' htarget => reads_pure ?_)
  rw [hsource, htarget]

lemma typeReads_ref {inner : Ty} (h : TypeReads inner) (hw : tyWritable (.ref inner)) :
    TypeReads (.ref inner) := by
  intro n hn
  rw [tyLevels] at hn
  have hrefs : Reads (many (· == .kwRef) (expect .kwRef))
      ([()].flatMap fun _ => [terminal .kwRef]) (fun k => k ≠ some .kwRef)
      (fun refs => refs.map (fun _ => ()) = [()].map fun _ => ()) := by
    refine reads_many (fun _ => True) [()] (fun _ _ => ?_) (fun _ _ => ?_) (fun k hk => ?_)
    · exact (reads_expect .kwRef _).mono (fun _ hk => hk) (fun _ _ => rfl)
    · exact ⟨_, [], rfl, rfl, trivial⟩
    · cases k with
      | none => exact ⟨trivial, rfl⟩
      | some kind => exact ⟨trivial, by simpa using hk⟩
  refine reads_arrowType_of_operand ?_
  unfold typeOperand
  rw [tyWords]
  refine reads_bind (reads_typeAtom h hw (by omega)) (fun t ht => ?_) (fun _ _ => trivial)
  refine reads_bind_last hrefs (fun refs hlen => reads_pure ?_)
  have hone : refs.length = 1 := by simpa using congrArg List.length hlen
  obtain ⟨token, rfl⟩ := List.length_eq_one_iff.mp hone
  rw [ht]
  rfl

lemma typeReads_atom (hatom : tyIsAtom ty = true) (hw : tyWritable ty) : TypeReads ty := by
  intro n _
  refine reads_arrowType_of_operand (reads_typeOperand_of_atom ?_)
  exact (reads_typeAtom_word hatom hw).mono (fun _ _ => trivial) fun _ ht => ht

/-- Every type that can be written is read back as itself. -/
theorem typeReads_of_writable (hw : tyWritable ty) : TypeReads ty := by
  induction ty with
  | array element dims ih => exact typeReads_array (ih hw.2) hw
  | func source target ihs iht => exact typeReads_func (ihs hw.1) (iht hw.2) hw
  | ref inner ih => exact typeReads_ref (ih hw) hw
  | _ => exact typeReads_atom rfl hw

/-- A type one level further down. -/
lemma reads_deeper_ty (hw : tyWritable ty) (hn : tyLevels ty + 1 ≤ n) :
    Reads (deeper n).ty (tyWords ty) endsType (fun t => t = ty) := by
  obtain ⟨m, rfl⟩ : ∃ m, n = m + 1 := ⟨n - 1, by omega⟩
  rw [deeper_succ]
  exact typeReads_of_writable hw m (by omega)

/-- An annotation, or none where no colon comes next. -/
lemma reads_annotation_words {ty : Option Ty} (hw : annotationWritable ty)
    (hn : annotationLevels ty ≤ n) :
    Reads (optionalType (deeper n)) (annotationWords ty)
      (fun k => endsType k ∧ k ≠ some .colon) (fun t => t = ty) := by
  unfold optionalType
  cases ty with
  | none =>
    exact (reads_optional_none (refuses_bind (refuses_expect .colon))).mono
      (fun _ hk => hk.2) (fun _ h => h)
  | some ty =>
    have hty := reads_deeper_ty (hw ty rfl) hn
    have hcolon : Reads (do let _ ← expect .colon; (deeper n).ty) (annotationWords (some ty))
        (fun k => endsType k ∧ k ≠ some .colon) (fun t => t = ty) :=
      reads_expect_bind fun _ _ => hty.mono (fun _ hk => hk.1) fun _ h => h
    refine (reads_optional hcolon).mono (fun _ hk => hk) ?_
    rintro _ ⟨t, rfl, rfl⟩
    rfl

end Llama.Proofs
