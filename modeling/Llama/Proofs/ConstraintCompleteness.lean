import Llama.Proofs.Satisfaction
import Mathlib.Data.List.Forall2

/-!
# Completeness of the constraints

Fix the types that nodes carry. While a typed program is elaborated, an assignment is built up
that satisfies the constraints collected so far: a primary placeholder is given the type of its
node, an auxiliary one the type that the typing rule asks for. `Complete A m P` says that from the
assignment `A` the step `m` leads to one that refines it and satisfies all constraints again.
-/

namespace Llama.Proofs

open Analyzer

variable {α β : Type} {ts : List Tag} {τs : List Ty} {c : Constraint} {env scope : Env}
  {Γ : Context} {node : NodeId} {hint : Option Ty} {m : Analyzer α} {f : Unit → Analyzer β}
  {t s result : Tag} {τ : Ty} {name : String} {site : Site} {params : List Param}

/-- Types for the placeholders that were made. Their tags follow on the first one. -/
structure Assignment where
  first : Tag
  count : Nat
  types : Tag → Ty

namespace Assignment

/-- The tag of the next placeholder. -/
def next (A : Assignment) : Tag := A.first + UInt32.ofNat A.count

def Made (A : Assignment) (t : Tag) : Prop := ∃ k < A.count, t = A.first + UInt32.ofNat k

/-- The tags have not come round, so they tell the placeholders apart. -/
def Apart (A : Assignment) : Prop := A.count ≤ UInt32.size

/-- The assignment that gives a type to the next placeholder. -/
def extend (A : Assignment) (τ : Ty) : Assignment :=
  ⟨A.first, A.count + 1, fun t => if t = A.next then τ else A.types t⟩

end Assignment

/-- The second assignment gives types to more placeholders, and the same ones to those of the
first as long as tags tell them apart. -/
structure Refines (A B : Assignment) : Prop where
  first : B.first = A.first
  count : A.count ≤ B.count
  types : B.Apart → ∀ t, A.Made t → B.types t = A.types t

/-- A placeholder that was made is given the type. -/
structure Gives (A : Assignment) (t : Tag) (τ : Ty) : Prop where
  made : A.Made t
  type : A.Apart → A.types t = τ

/-- Placeholders that were made are given the types, one by one. -/
def GivesAll (A : Assignment) : List Tag → List Ty → Prop := List.Forall₂ (Gives A)

/-- A constraint on placeholders that were made holds. -/
structure Meets (A : Assignment) (c : Constraint) : Prop where
  made : ∀ t ∈ c.tags, A.Made t
  holds : A.Apart → c.Holds A.types

/-- The name has the type, which its placeholder is given if it has one. -/
def Bears (A : Assignment) (symbol : Symbol) (τ : Ty) : Prop :=
  match symbol.temp with
  | some t => Gives A t τ
  | none => symbol.ty = some τ

/-- The names of the environment have the types of the context. -/
abbrev Knows (A : Assignment) (env : Env) (Γ : Context) : Prop := Binds (Bears A) env Γ

/-- The assignment covers the placeholders that were made and satisfies what was collected. -/
structure Fulfils (σ : Decoration) (A : Assignment) (i : Inference) : Prop where
  next : i.next = A.next
  count : i.temps.toList.length = A.count
  temps : ∀ temp ∈ i.temps.toList, A.Made temp.tag
  primary : ∀ temp ∈ i.temps.toList, temp.primary = true → Gives A temp.tag (σ temp.node)
  constraints : ∀ c ∈ i.constraints.toList, Meets A c

lemma add_ofNat_succ (first : Tag) (k : Nat) :
    first + UInt32.ofNat (k + 1) = first + UInt32.ofNat k + 1 := by
  rw [UInt32.ofNat_add, ← UInt32.add_assoc]
  rfl

lemma ofNat_inj {j k : Nat} (hj : j < UInt32.size) (hk : k < UInt32.size)
    (h : UInt32.ofNat j = UInt32.ofNat k) : j = k := by
  have htoNat := congrArg UInt32.toNat h
  rwa [UInt32.toNat_ofNat_of_lt' hj, UInt32.toNat_ofNat_of_lt' hk] at htoNat

section

variable {A B C : Assignment} {σ : Decoration} {i : Inference} {t : Tag} {τ : Ty}

lemma Refines.refl (A : Assignment) : Refines A A := ⟨rfl, Nat.le_refl _, fun _ _ _ => rfl⟩

lemma Refines.made (h : Refines A B) (ht : A.Made t) : B.Made t := by
  obtain ⟨k, hk, rfl⟩ := ht
  exact ⟨k, Nat.lt_of_lt_of_le hk h.count, by rw [h.first]⟩

lemma Refines.apart (h : Refines A B) (hB : B.Apart) : A.Apart := Nat.le_trans h.count hB

lemma Refines.trans (h : Refines A B) (h' : Refines B C) : Refines A C :=
  ⟨h'.first.trans h.first, Nat.le_trans h.count h'.count, fun hC t ht =>
    (h'.types hC t (h.made ht)).trans (h.types (h'.apart hC) t ht)⟩

lemma Gives.mono (h : Gives A t τ) (hAB : Refines A B) : Gives B t τ :=
  ⟨hAB.made h.made, fun hB => (hAB.types hB t h.made).trans (h.type (hAB.apart hB))⟩

lemma GivesAll.mono (h : GivesAll A ts τs) (hAB : Refines A B) : GivesAll B ts τs :=
  List.Forall₂.imp (fun _ _ ht => ht.mono hAB) h

lemma GivesAll.made (h : GivesAll A ts τs) : ∀ t ∈ ts, A.Made t := by
  induction h with
  | nil => nofun
  | cons ht _ ih => exact List.forall_mem_cons.mpr ⟨ht.made, ih⟩

lemma GivesAll.types (h : GivesAll A ts τs) (hA : A.Apart) : ts.map A.types = τs := by
  induction h with
  | nil => rfl
  | cons ht _ ih => rw [List.map_cons, ht.type hA, ih]

lemma Meets.mono (h : Meets A c) (hAB : Refines A B) : Meets B c :=
  ⟨fun t ht => hAB.made (h.made t ht), fun hB =>
    (h.holds (hAB.apart hB)).congr fun t ht => (hAB.types hB t (h.made t ht)).symm⟩

lemma Knows.mono (h : Knows A env Γ) (hAB : Refines A B) : Knows B env Γ := by
  refine fun name => rel_mono (fun symbol τ hsymbol => ?_) (h name)
  unfold Bears at hsymbol ⊢
  split at hsymbol
  · exact hsymbol.mono hAB
  · exact hsymbol

lemma Gives.bears {symbol : Symbol} (h : Gives A t τ) (hsymbol : symbol.temp = some t) :
    Bears A symbol τ := by
  rw [Bears, hsymbol]
  exact h

lemma refines_extend (A : Assignment) (τ : Ty) : Refines A (A.extend τ) := by
  refine ⟨rfl, Nat.le_succ _, fun hapart t ht => if_neg ?_⟩
  obtain ⟨k, hk, rfl⟩ := ht
  intro hnext
  have hcount : A.count < UInt32.size := hapart
  have hsame := ofNat_inj (Nat.lt_trans hk hcount) hcount ((UInt32.add_right_inj _).mp hnext)
  omega

lemma gives_extend (A : Assignment) (τ : Ty) : Gives (A.extend τ) A.next τ :=
  ⟨⟨A.count, Nat.lt_succ_self _, rfl⟩, fun _ => if_pos rfl⟩

lemma Fulfils.newTemp (h : Fulfils σ A i) {primary : Bool} (hprimary : primary = true → σ node = τ)
    (hhint : ∀ ty ∈ hint, ty = τ) : Fulfils σ (A.extend τ) (i.newTemp node hint primary).2 := by
  have hext := refines_extend A τ
  have hnew := gives_extend A τ
  refine ⟨?_, ?_, ?_, ?_, ?_⟩
  · have hnext : (i.newTemp node hint primary).2.next = i.next + 1 := rfl
    rw [hnext, h.next]
    exact (add_ofNat_succ A.first A.count).symm
  · rw [newTemp_temps, List.length_append, h.count]
    rfl
  · rw [newTemp_temps, List.forall_mem_append, h.next]
    refine ⟨fun temp ht => hext.made (h.temps temp ht), ?_⟩
    exact List.forall_mem_singleton.mpr hnew.made
  · rw [newTemp_temps, List.forall_mem_append, h.next]
    refine ⟨fun temp ht hp => (h.primary temp ht hp).mono hext, ?_⟩
    refine List.forall_mem_singleton.mpr fun hp => ?_
    rw [hprimary hp]
    exact hnew
  · rw [newTemp_constraints, List.forall_mem_append, h.next]
    refine ⟨fun c hc => (h.constraints c hc).mono hext, fun c hc => ?_⟩
    cases hint with
    | none => cases hc
    | some ty =>
      obtain rfl := List.mem_singleton.mp hc
      refine ⟨?_, fun hapart => ?_⟩
      · simpa [Constraint.tags, Ty.tags_toTerm] using hnew.made
      · simpa [hhint ty rfl] using hnew.type hapart

end

section

variable (σ : Decoration) (Δ : Signature)

def Complete (A : Assignment) (m : Analyzer α) (P : Assignment → α → Prop) : Prop :=
  ∀ w, w.types = Δ.table → w.passed = Δ.passed → Fulfils σ A w.inference →
    (m w).2.types = Δ.table ∧ (m w).2.passed = Δ.passed ∧
      ∃ B, Refines A B ∧ Fulfils σ B (m w).2.inference ∧ P B (m w).1

variable {σ Δ} {A : Assignment} {Q : Assignment → β → Prop}

lemma complete_pure {a : α} {P : Assignment → α → Prop} (h : P A a) :
    Complete σ Δ A (pure a) P :=
  fun _ htypes hpassed hfulfils => ⟨htypes, hpassed, A, .refl A, hfulfils, h⟩

lemma complete_bind {f : α → Analyzer β} {P : Assignment → α → Prop} (hm : Complete σ Δ A m P)
    (hf : ∀ a B, Refines A B → P B a → Complete σ Δ B (f a) Q) : Complete σ Δ A (m >>= f) Q := by
  intro w htypes hpassed hfulfils
  obtain ⟨htypes', hpassed', B, hAB, hB, hP⟩ := hm w htypes hpassed hfulfils
  obtain ⟨htypes'', hpassed'', C, hBC, hC, hQ⟩ := hf (m w).1 B hAB hP (m w).2 htypes' hpassed' hB
  exact ⟨htypes'', hpassed'', C, hAB.trans hBC, hC, hQ⟩

lemma Complete.mono {P P' : Assignment → α → Prop} (h : Complete σ Δ A m P)
    (hP : ∀ B a, P B a → P' B a) : Complete σ Δ A m P' := by
  intro w htypes hpassed hfulfils
  obtain ⟨htypes', hpassed', B, hAB, hB, hPB⟩ := h w htypes hpassed hfulfils
  exact ⟨htypes', hpassed', B, hAB, hB, hP B _ hPB⟩

/-- Nothing is collected in the step. -/
def Silent (m : Analyzer α) : Prop :=
  ∀ w, (m w).2.inference = w.inference ∧ (m w).2.types = w.types ∧ (m w).2.passed = w.passed

lemma complete_silent {f : α → Analyzer β} {P : α → Prop} (hm : Silent m)
    (hP : ∀ w, w.types = Δ.table → w.passed = Δ.passed → P (m w).1)
    (hf : ∀ a, P a → Complete σ Δ A (f a) Q) : Complete σ Δ A (m >>= f) Q := by
  intro w htypes hpassed hfulfils
  obtain ⟨hinference, htypes', hpassed'⟩ := hm w
  refine hf (m w).1 (hP w htypes hpassed) (m w).2 (htypes'.trans htypes)
    (hpassed'.trans hpassed) ?_
  rw [hinference]
  exact hfulfils

lemma Silent.complete (hm : Silent m) : Complete σ Δ A m fun _ _ => True := by
  intro w htypes hpassed hfulfils
  obtain ⟨hinference, htypes', hpassed'⟩ := hm w
  exact ⟨htypes'.trans htypes, hpassed'.trans hpassed, A, .refl A, hinference ▸ hfulfils, trivial⟩

lemma complete_skip {f : α → Analyzer β} (hm : Silent m) (hf : ∀ a, Complete σ Δ A (f a) Q) :
    Complete σ Δ A (m >>= f) Q :=
  complete_silent (P := fun _ => True) hm (fun _ _ _ => trivial) fun a _ => hf a

lemma complete_emits {m : Analyzer Unit} {cs : List Constraint} (h : Emits m cs)
    (hcs : ∀ c ∈ cs, Meets A c) : Complete σ Δ A m fun B _ => B = A := by
  intro w htypes hpassed hfulfils
  obtain ⟨hconstraints, htemps, hnext⟩ := foldl_constrain cs w.inference
  rw [h w]
  refine ⟨htypes, hpassed, A, .refl A, ⟨?_, ?_, ?_, ?_, ?_⟩, rfl⟩
  · exact hnext.trans hfulfils.next
  · rw [htemps]
    exact hfulfils.count
  · rw [htemps]
    exact hfulfils.temps
  · rw [htemps]
    exact hfulfils.primary
  · rw [hconstraints]
    exact List.forall_mem_append.mpr ⟨hfulfils.constraints, hcs⟩

lemma complete_emits_bind {m : Analyzer Unit} {cs : List Constraint} (h : Emits m cs)
    (hcs : ∀ c ∈ cs, Meets A c) (hf : Complete σ Δ A (f ()) Q) : Complete σ Δ A (m >>= f) Q := by
  refine complete_bind (complete_emits h hcs) fun _ B _ hB => ?_
  rw [hB]
  exact hf

lemma meets_spec {term : Term} (ht : Gives A t τ) (hmade : ∀ s ∈ term.tags, A.Made s)
    (hterm : A.Apart → term.subst A.types = τ) : Meets A (.spec t term) :=
  ⟨List.forall_mem_cons.mpr ⟨ht.made, hmade⟩, fun hA => (ht.type hA).trans (hterm hA).symm⟩

lemma meets_type (ht : Gives A t τ) : Meets A (.spec t τ.toTerm) := by
  refine meets_spec ht ?_ fun _ => Ty.subst_toTerm _ τ
  rw [Ty.tags_toTerm]
  nofun

lemma meets_same (ht : Gives A t τ) (hs : Gives A s τ) : Meets A (.same t s) := by
  refine ⟨fun u hu => ?_, fun hA => (ht.type hA).trans (hs.type hA).symm⟩
  simp only [Constraint.tags, List.mem_cons, List.not_mem_nil, or_false] at hu
  rcases hu with rfl | rfl
  · exact ht.made
  · exact hs.made

lemma meets_ref (ht : Gives A t (.ref τ)) (hs : Gives A s τ) : Meets A (.spec t (.ref (.temp s))) :=
  meets_spec ht (List.forall_mem_singleton.mpr hs.made) fun hA => by simp [hs.type hA]

lemma meets_array {dims : Nat} (ht : Gives A t (.array τ dims)) (hs : Gives A s τ) :
    Meets A (.spec t (.array (.temp s) dims)) :=
  meets_spec ht (List.forall_mem_singleton.mpr hs.made) fun hA => by simp [hs.type hA]

lemma meets_curried {f : Tag} (hf : Gives A f (Ty.curried τs τ)) (hts : GivesAll A ts τs)
    (ht : Gives A t τ) : Meets A (.spec f (Term.curried (ts.map .temp) (.temp t))) := by
  refine meets_spec hf ?_ fun hA => ?_
  · rw [Term.tags_curried, List.forall_mem_append]
    exact ⟨hts.made, List.forall_mem_singleton.mpr ht.made⟩
  · rw [Term.subst_curried, hts.types hA, ht.type hA]

lemma complete_type (ht : Gives A t τ) (hf : Complete σ Δ A (f ()) Q) :
    Complete σ Δ A (spec t τ.toTerm >>= f) Q :=
  complete_emits_bind (emits_spec t _) (List.forall_mem_singleton.mpr (meets_type ht)) hf

lemma complete_same (ht : Gives A t τ) (hs : Gives A s τ) (hf : Complete σ Δ A (f ()) Q) :
    Complete σ Δ A (same t s >>= f) Q :=
  complete_emits_bind (emits_same t s) (List.forall_mem_singleton.mpr (meets_same ht hs)) hf

lemma complete_tempFor {f : Tag → Analyzer β} (hhint : ∀ ty ∈ hint, ty = σ node)
    (hf : ∀ t B, Refines A B → Gives B t (σ node) → Complete σ Δ B (f t) Q) :
    Complete σ Δ A (tempFor node hint >>= f) Q := by
  refine complete_bind (P := fun B t => Gives B t (σ node)) ?_ hf
  intro w htypes hpassed hfulfils
  have hrun : tempFor node hint w = ((w.inference.tempFor node hint).1,
      { w with inference := (w.inference.tempFor node hint).2 }) := rfl
  rw [hrun]
  refine ⟨htypes, hpassed, ?_⟩
  unfold Inference.tempFor
  cases hfound : w.inference.primary? node with
  | some t =>
    obtain ⟨temp, hmem, hprimary, rfl, rfl⟩ := exists_temp_of_primary? hfound
    exact ⟨A, .refl A, hfulfils, hfulfils.primary temp hmem hprimary⟩
  | none =>
    refine ⟨A.extend (σ node), refines_extend A _, hfulfils.newTemp (fun _ => rfl) hhint, ?_⟩
    have htag : (w.inference.newTemp node hint true).1 = A.next := hfulfils.next
    rw [htag]
    exact gives_extend A (σ node)

/-- An auxiliary placeholder may be given any type that agrees with its hint. -/
lemma complete_aux {f : Tag → Analyzer β} (τ : Ty) (hhint : ∀ ty ∈ hint, ty = τ)
    (hf : ∀ t B, Refines A B → Gives B t τ → Complete σ Δ B (f t) Q) :
    Complete σ Δ A (aux node hint >>= f) Q := by
  refine complete_bind (P := fun B t => Gives B t τ) ?_ hf
  intro w htypes hpassed hfulfils
  refine ⟨htypes, hpassed, A.extend τ, refines_extend A τ, hfulfils.newTemp nofun hhint, ?_⟩
  have htag : (aux node hint w).1 = A.next := hfulfils.next
  rw [htag]
  exact gives_extend A τ

/-- A node that answers with the placeholder made for it. -/
lemma complete_node {f : Tag → Analyzer Tag} (hτ : σ node = τ)
    (hf : ∀ t B, Refines A B → Gives B t τ → Complete σ Δ B (f t) fun _ t' => t' = t) :
    Complete σ Δ A (tempFor node none >>= f) fun B t => Gives B t τ := by
  refine complete_tempFor nofun fun t B hAB ht w htypes hpassed hfulfils => ?_
  rw [hτ] at ht
  obtain ⟨htypes', hpassed', C, hBC, hC, hanswer⟩ := hf t B hAB ht w htypes hpassed hfulfils
  refine ⟨htypes', hpassed', C, hBC, hC, ?_⟩
  rw [hanswer]
  exact ht.mono hBC

lemma silent_pure (a : α) : Silent (pure a) := fun _ => ⟨rfl, rfl, rfl⟩

lemma silent_report (r : Report) : Silent (report r) := fun _ => ⟨rfl, rfl, rfl⟩

lemma silent_ite {c : Prop} [Decidable c] {m' : Analyzer α} (h : Silent m) (h' : Silent m') :
    Silent (if c then m else m') := by
  by_cases hc : c
  · rw [if_pos hc]
    exact h
  · rw [if_neg hc]
    exact h'

lemma silent_validate (ty : Ty) (name : String) (span : Span) :
    Silent (validate ty name span) := by
  intro w
  rw [validate_run]
  cases w.types.validateWithin ty w.passed <;> exact ⟨rfl, rfl, rfl⟩

lemma silent_validateOption (ty : Option Ty) (name : String) (span : Span) :
    Silent (validateOption ty name span) := by
  cases ty with
  | none => exact silent_pure ()
  | some ty => exact silent_validate ty name span

lemma silent_validateResult (result : Option Ty) (name : String) (span : Span) :
    Silent (validateResult result name span) := by
  cases result with
  | none => exact silent_pure ()
  | some ty => exact silent_ite (silent_report _) (silent_validate ty name span)

lemma silent_forM {step : α → Analyzer Unit} (h : ∀ a, Silent (step a)) (l : List α) :
    Silent (l.forM step) := by
  induction l with
  | nil => exact silent_pure ()
  | cons a l ih =>
    intro w
    obtain ⟨hinference, htypes, hpassed⟩ := h a w
    obtain ⟨hinference', htypes', hpassed'⟩ := ih (step a w).2
    exact ⟨hinference'.trans hinference, htypes'.trans htypes, hpassed'.trans hpassed⟩

lemma complete_declare {symbol : Symbol} {f : Env → Analyzer β} (hscope : Knows A scope Γ)
    (ht : Gives A t τ) (hsymbol : symbol.temp = some t)
    (hf : ∀ scope', Knows A scope' (Γ ++ [(symbol.name, τ)]) → Complete σ Δ A (f scope') Q) :
    Complete σ Δ A (declare scope symbol >>= f) Q := by
  refine complete_silent (fun w => ?_) (fun w _ _ => binds_declare hscope (ht.bears hsymbol) w) hf
  unfold declare
  cases Env.lookup? scope symbol.name <;> exact ⟨rfl, rfl, rfl⟩

lemma complete_constrainUse {step : Tag → Analyzer Unit} {cs : Tag → List Constraint}
    (henv : Knows A env Γ) (hname : Γ.lookup name = some τ) (hstep : ∀ t, Emits (step t) (cs t))
    (hcs : ∀ t B, Refines A B → Gives B t τ → ∀ c ∈ cs t, Meets B c)
    (hf : ∀ B, Refines A B → Complete σ Δ B (f ()) Q) :
    Complete σ Δ A (constrainUse env name site step >>= f) Q := by
  obtain ⟨symbol, hfound, hτ⟩ := henv.exists_symbol hname
  have hemit : ∀ t B, Refines A B → Gives B t τ → Complete σ Δ B (step t >>= f) Q :=
    fun t B hAB ht => complete_emits_bind (hstep t) (hcs t B hAB ht) (hf B hAB)
  obtain ⟨name', kind, ty, temp, span⟩ := symbol
  unfold constrainUse resolveUse
  rw [hfound]
  cases temp with
  | some t => exact hemit t A (.refl A) hτ
  | none =>
    cases ty with
    | none => cases hτ
    | some ty =>
      obtain rfl : ty = τ := Option.some.inj hτ
      simp only [bind_assoc, pure_bind, forSome]
      exact complete_aux ty (fun ty' hty' => (Option.some.inj hty').symm) hemit

lemma complete_construct {target : Tag} {args : List Tag} {span : Span} {info : ConstructorInfo}
    (hinfo : Δ.constructor? name = some info) (htarget : Gives A target (.user info.owner))
    (hargs : GivesAll A args info.args) (hf : Complete σ Δ A (f ()) Q) :
    Complete σ Δ A (construct target name args span >>= f) Q := by
  have hfound : Emits (constructFound target args info)
      (.spec target (.user info.owner) :: (args.zip info.args).map fun a => .spec a.1 a.2.toTerm) :=
    emits_bind (emits_spec _ _) (emits_forM (fun (a : Tag × Ty) => emits_spec a.1 a.2.toTerm) _)
  have hmeets : ∀ a ∈ args.zip info.args, Meets A (.spec a.1 a.2.toTerm) :=
    fun _ ha => meets_type ((List.forall₂_iff_zip.mp hargs).2 ha)
  rw [construct_eq, bind_assoc]
  refine complete_silent (P := fun found => found = some info) ?_ ?_ ?_
  · intro w
    rw [constructorOf_run]
    cases w.types.constructorWithin? name w.passed <;> exact ⟨rfl, rfl, rfl⟩
  · intro w htypes hpassed
    have hsome : w.types.constructorWithin? name w.passed = some info := by
      rw [htypes, hpassed]
      exact hinfo
    rw [constructorOf_run, hsome]
  · intro found hsome
    rw [hsome, forSome, bind_assoc]
    refine complete_skip (silent_ite (silent_report _) (silent_pure ())) fun _ => ?_
    refine complete_emits_bind hfound ?_ hf
    refine List.forall_mem_cons.mpr ⟨meets_type htarget, fun c hc => ?_⟩
    obtain ⟨a, ha, rfl⟩ := List.mem_map.mp hc
    exact hmeets a ha

end

section

variable (σ : Decoration) (Δ : Signature)

def PatternComplete (p : Pattern) : Prop :=
  ∀ A scope Γ τ, Knows A scope Γ → PatternTyped σ Δ p τ →
    Complete σ Δ A (elaboratePattern p scope) fun B r =>
      Gives B r.1 τ ∧ Knows B r.2 (Γ ++ siteContext σ p.bindings)

def ExprComplete (e : Expr) : Prop :=
  ∀ A env Γ τ, Knows A env Γ → HasType σ Δ Γ e τ →
    Complete σ Δ A (elaborateExpr e env) fun B t => Gives B t τ

def DefComplete (d : Def) : Prop :=
  ∀ A env Γ, Knows A env Γ → DefTyped σ Δ Γ d →
    Complete σ Δ A (elaborateDef d env) fun _ _ => True

variable {σ Δ} {A : Assignment} {Γ : Context}

lemma complete_patterns {ps : List Pattern} (h : ∀ p ∈ ps, PatternComplete σ Δ p)
    (hscope : Knows A scope Γ) (htyped : PatternsTyped σ Δ ps τs) :
    Complete σ Δ A (elaboratePatterns ps scope) fun B r =>
      GivesAll B r.1 τs ∧ Knows B r.2 (Γ ++ siteContext σ (Pattern.bindingsOfList ps)) := by
  induction ps generalizing A Γ scope τs with
  | nil =>
    cases htyped
    refine complete_pure ⟨.nil, ?_⟩
    simpa [Pattern.bindingsOfList, siteContext] using hscope
  | cons p ps ih =>
    cases htyped with
    | cons hfirst hrest =>
      refine complete_bind (h p (by simp) A scope Γ _ hscope hfirst) fun first B hAB hp => ?_
      refine complete_bind (ih (fun q hq => h q (by simp [hq])) hp.2 hrest) ?_
      intro others C hBC hps
      refine complete_pure ⟨.cons (hp.1.mono hBC) hps.1, ?_⟩
      simpa [Pattern.bindingsOfList, siteContext] using hps.2

lemma pattern_complete : PatternCases (PatternComplete σ Δ) where
  constr site name args ih A scope Γ τ hscope htyped := by
    cases htyped with
    | constr hσ hinfo hargs =>
      refine complete_tempFor nofun fun p B hAB hp => ?_
      rw [hσ] at hp
      refine complete_bind (complete_patterns ih (hscope.mono hAB) hargs) fun r C hBC hr => ?_
      exact complete_construct hinfo (hp.mono hBC) hr.1 (complete_pure ⟨hp.mono hBC, hr.2⟩)
  const site value A scope Γ τ hscope htyped := by
    cases htyped with
    | const hσ =>
      refine complete_tempFor nofun fun p B hAB hp => ?_
      rw [hσ] at hp
      refine complete_type hp (complete_pure ⟨hp, ?_⟩)
      simpa [Pattern.bindings, siteContext] using hscope.mono hAB
  var site name A scope Γ τ hscope htyped := by
    cases htyped with
    | var hσ =>
      refine complete_tempFor nofun fun p B hAB hp => ?_
      refine complete_declare (hscope.mono hAB) hp rfl fun scope' hscope' => ?_
      rw [hσ] at hp
      exact complete_pure ⟨hp, hscope'⟩

lemma complete_exprs {es : List Expr} (h : ∀ e ∈ es, ExprComplete σ Δ e) (henv : Knows A env Γ)
    (htyped : HaveTypes σ Δ Γ es τs) :
    Complete σ Δ A (elaborateExprs es env) fun B ts => GivesAll B ts τs := by
  induction es generalizing A τs with
  | nil =>
    cases htyped
    exact complete_pure .nil
  | cons e es ih =>
    cases htyped with
    | cons hfirst hrest =>
      refine complete_bind (h e (by simp) A env Γ _ henv hfirst) fun t B hAB ht => ?_
      refine complete_bind (ih (fun x hx => h x (by simp [hx])) (henv.mono hAB) hrest) ?_
      exact fun ts C hBC hts => complete_pure (.cons (ht.mono hBC) hts)

lemma complete_sizes {es : List Expr} (h : ∀ e ∈ es, ExprComplete σ Δ e) (henv : Knows A env Γ)
    (htyped : ∀ e ∈ es, HasType σ Δ Γ e .int) :
    Complete σ Δ A (elaborateSizes es env) fun _ _ => True := by
  induction es generalizing A with
  | nil => exact complete_pure trivial
  | cons e es ih =>
    obtain ⟨hfirst, hrest⟩ := List.forall_mem_cons.mp htyped
    refine complete_bind (h e (by simp) A env Γ _ henv hfirst) fun t B hAB ht => ?_
    exact complete_type ht (ih (fun x hx => h x (by simp [hx])) (henv.mono hAB) hrest)

lemma complete_clauses {cs : List Clause} (h : ∀ c ∈ cs, ExprComplete σ Δ c.body) {scrutinee : Tag}
    {τs : Ty} (henv : Knows A env Γ) (hresult : Gives A result τ)
    (hscrutinee : Gives A scrutinee τs) (hpatterns : ∀ c ∈ cs, PatternTyped σ Δ c.pattern τs)
    (hbodies : ∀ c ∈ cs, HasType σ Δ (siteContext σ c.pattern.bindings ++ Γ) c.body τ) :
    Complete σ Δ A (elaborateClauses cs result scrutinee env) fun _ _ => True := by
  induction cs generalizing A with
  | nil => exact complete_pure trivial
  | cons c cs ih =>
    obtain ⟨site, pattern, body⟩ := c
    obtain ⟨hpattern, hpatterns'⟩ := List.forall_mem_cons.mp hpatterns
    obtain ⟨hbody, hbodies'⟩ := List.forall_mem_cons.mp hbodies
    refine complete_bind (pattern_complete.pattern pattern A [] [] τs binds_nil hpattern) ?_
    intro p B hAB hp
    refine complete_same hp.1 (hscrutinee.mono hAB) ?_
    refine complete_bind
      (h _ List.mem_cons_self B _ _ τ (hp.2.append (henv.mono hAB)) hbody) fun b C hBC hb => ?_
    have hAC := hAB.trans hBC
    refine complete_same (hresult.mono hAC) hb ?_
    exact ih (fun x hx => h x (by simp [hx])) (henv.mono hAC) (hresult.mono hAC)
      (hscrutinee.mono hAC) hpatterns' hbodies'

lemma map_eq_of_mapM_ty {tys : List Ty} (htys : params.mapM Param.ty = some tys)
    (h : ∀ p ∈ params, ∀ ty ∈ p.ty, Δ.Valid ty ∧ σ p.site.id = ty) :
    params.map (fun p => σ p.site.id) = tys := by
  induction params generalizing tys with
  | nil =>
    cases htys
    rfl
  | cons p params ih =>
    rw [List.mapM_cons] at htys
    obtain ⟨ty, hty, htys⟩ := Option.bind_eq_some_iff.mp htys
    obtain ⟨tys', htys', hcons⟩ := Option.bind_eq_some_iff.mp htys
    obtain ⟨hfirst, hrest⟩ := List.forall_mem_cons.mp h
    cases hcons
    rw [List.map_cons, ih htys' hrest, (hfirst ty hty).2]

lemma functionType?_eq_some {result : Option Ty} {ty : Ty}
    (h : Def.functionType? params result = some ty) :
    ∃ tys r, params.mapM Param.ty = some tys ∧ result = some r ∧ ty = Ty.curried tys r := by
  unfold Def.functionType? at h
  split at h
  · next r tys htys => exact ⟨tys, r, htys, rfl, (Option.some.inj h).symm⟩
  · cases h

/-- The type that the source gives to a definition is the one that its node carries. -/
lemma DefTyped.declared {d : Def} (h : DefTyped σ Δ Γ d) :
    ∀ ty ∈ d.declaredType?, ty = σ d.site.id := by
  intro ty hty
  cases h with
  | function hσ hparams hresult _ =>
    obtain ⟨tys, r, htys, hr, rfl⟩ := functionType?_eq_some hty
    rw [(hresult r hr).2.2, ← map_eq_of_mapM_ty htys hparams]
    exact hσ.symm
  | constant hσ hgiven _ => exact ((hgiven ty hty).2).trans hσ.symm
  | mutableVar hσ _ => exact (Option.some.inj hty).symm.trans hσ.symm
  | mutableArray hσ _ _ => exact (Option.some.inj hty).symm.trans hσ.symm

lemma complete_declareDefs {ds : List Def} (h : ∀ d ∈ ds, ∀ ty ∈ d.declaredType?, ty = σ d.site.id)
    (hscope : Knows A scope Γ) :
    Complete σ Δ A (declareDefs ds scope) fun B scope' =>
      Knows B scope' (Γ ++ defContext σ ds) := by
  induction ds generalizing A Γ scope with
  | nil =>
    refine complete_pure ?_
    simpa [defContext] using hscope
  | cons d ds ih =>
    refine complete_tempFor (h d (by simp)) fun t B hAB ht => ?_
    refine complete_declare (hscope.mono hAB) ht rfl fun scope' hscope' => ?_
    simpa [defContext] using ih (fun x hx => h x (by simp [hx])) hscope'

lemma complete_declareParams (function : String) {ps : List Param}
    (h : ∀ p ∈ ps, ∀ ty ∈ p.ty, ty = σ p.site.id) (hscope : Knows A scope Γ) :
    Complete σ Δ A (declareParams function ps scope) fun B r =>
      GivesAll B r.1 (ps.map fun p => σ p.site.id) ∧ Knows B r.2 (Γ ++ paramContext σ ps) := by
  induction ps generalizing A Γ scope with
  | nil =>
    refine complete_pure ⟨.nil, ?_⟩
    simpa [paramContext] using hscope
  | cons p ps ih =>
    refine complete_tempFor (h p (by simp)) fun t B hAB ht => ?_
    refine complete_skip (silent_ite (silent_report _) (silent_pure ())) fun _ => ?_
    refine complete_declare (hscope.mono hAB) ht rfl fun scope' hscope' => ?_
    refine complete_bind (ih (fun x hx => h x (by simp [hx])) hscope') ?_
    intro others C hBC hothers
    refine complete_pure ⟨.cons (ht.mono hBC) hothers.1, ?_⟩
    simpa [paramContext] using hothers.2

lemma complete_defs {ds : List Def} (h : ∀ d ∈ ds, DefComplete σ Δ d) (henv : Knows A env Γ)
    (htyped : ∀ d ∈ ds, DefTyped σ Δ Γ d) :
    Complete σ Δ A (elaborateDefs ds env) fun _ _ => True := by
  induction ds generalizing A with
  | nil => exact complete_pure trivial
  | cons d ds ih =>
    obtain ⟨hfirst, hrest⟩ := List.forall_mem_cons.mp htyped
    refine complete_bind (h d (by simp) A env Γ henv hfirst) fun _ B hAB _ => ?_
    exact ih (fun x hx => h x (by simp [hx])) (henv.mono hAB) hrest

lemma complete_group {g : LetGroup} (h : ∀ d ∈ g.defs, DefComplete σ Δ d) (henv : Knows A env Γ)
    (htyped : ∀ d ∈ g.defs, DefTyped σ Δ (groupContext σ g Γ) d) :
    Complete σ Δ A (elaborateGroup g env) fun B scope => Knows B scope (defContext σ g.defs) := by
  obtain ⟨site, isRec, ds⟩ := g
  have hdeclared : ∀ d ∈ ds, ∀ ty ∈ d.declaredType?, ty = σ d.site.id :=
    fun d hd => (htyped d hd).declared
  cases isRec with
  | true =>
    refine complete_bind (complete_declareDefs hdeclared binds_nil) fun scope B hAB hscope => ?_
    refine complete_bind (complete_defs h (hscope.append (henv.mono hAB)) htyped) ?_
    exact fun _ C hBC _ => complete_pure (hscope.mono hBC)
  | false =>
    refine complete_bind (complete_defs h henv htyped) fun _ B hAB _ => ?_
    exact complete_declareDefs hdeclared binds_nil

lemma binaryDemands_tags {op : BinaryOp} {left right : Tag}
    (hc : c ∈ binaryDemands op result left right) :
    ∀ t ∈ c.tags, t = result ∨ t = left ∨ t = right := by
  revert c
  cases op <;> simp [binaryDemands, Constraint.tags, Term.tags]

lemma unaryDemands_tags {op : UnaryOp} {operand : Tag} (hc : c ∈ unaryDemands op result operand) :
    ∀ t ∈ c.tags, t = result ∨ t = operand := by
  revert c
  cases op <;> simp [unaryDemands, Constraint.tags, Term.tags]

lemma BinaryTyping.meets {op : BinaryOp} {τl τr : Ty} {left right : Tag}
    (h : BinaryTyping op τl τr τ) (hl : Gives A left τl) (hr : Gives A right τr)
    (ht : Gives A result τ) : ∀ c ∈ binaryDemands op result left right, Meets A c := by
  refine fun c hc => ⟨fun t htag => ?_, fun hA => ?_⟩
  · rcases binaryDemands_tags hc t htag with rfl | rfl | rfl
    exacts [ht.made, hl.made, hr.made]
  · rw [← hl.type hA, ← hr.type hA, ← ht.type hA] at h
    exact h.holds c hc

lemma UnaryTyping.meets {op : UnaryOp} {τo : Ty} {operand : Tag} (h : UnaryTyping op τo τ)
    (ho : Gives A operand τo) (ht : Gives A result τ) :
    ∀ c ∈ unaryDemands op result operand, Meets A c := by
  refine fun c hc => ⟨fun t htag => ?_, fun hA => ?_⟩
  · rcases unaryDemands_tags hc t htag with rfl | rfl
    exacts [ht.made, ho.made]
  · rw [← ho.type hA, ← ht.type hA] at h
    exact h.holds c hc

lemma exprComplete_forLoop {counter : String} {first : Expr} {down : Bool} {last body : Expr}
    (hf : ExprComplete σ Δ first) (hl : ExprComplete σ Δ last) (hb : ExprComplete σ Δ body) :
    ExprComplete σ Δ (.forLoop site counter first down last body) := by
  intro A env Γ τ henv htyped
  cases htyped with
  | forLoop hσ hfirst hlast hbody =>
    refine complete_node hσ fun t B hAB ht => ?_
    refine complete_bind (hf B env Γ _ (henv.mono hAB) hfirst) fun f C hBC hf => ?_
    have hAC := hAB.trans hBC
    refine complete_bind (hl C env Γ _ (henv.mono hAC) hlast) fun l D hCD hl => ?_
    refine complete_type (hf.mono hCD) (complete_type hl ?_)
    refine complete_aux .int (fun ty hty => (Option.some.inj hty).symm) fun c E hDE hc => ?_
    have hAE := hAC.trans (hCD.trans hDE)
    have hcounter : Knows E [⟨counter, .var, some .int, some c, site.span⟩] [(counter, .int)] :=
      binds_singleton (hc.bears rfl)
    refine complete_bind (hb E _ _ _ (hcounter.append (henv.mono hAE)) hbody) fun b F hEF hb => ?_
    refine complete_type hb (complete_type (ht.mono ?_) (complete_pure rfl))
    exact hBC.trans (hCD.trans (hDE.trans hEF))

lemma defComplete_function {result : Option Ty} {body : Expr} (ih : ExprComplete σ Δ body) :
    DefComplete σ Δ (.function site name params result body) := by
  intro A env Γ henv htyped
  have hdeclared := htyped.declared
  cases htyped with
  | @function _ _ _ _ _ _ τ hσ hparams hresult hbody =>
    refine complete_skip (silent_forM (fun _ => silent_validateOption _ _ _) _) fun _ => ?_
    refine complete_skip (silent_validateResult _ _ _) fun _ => ?_
    refine complete_tempFor hdeclared fun f B hAB hf => ?_
    have hgiven : ∀ p ∈ params, ∀ ty ∈ p.ty, ty = σ p.site.id := fun p hp ty hty =>
      (hparams p hp ty hty).2.symm
    refine complete_bind (complete_declareParams name hgiven binds_nil) fun ps C hBC hps => ?_
    have hAC := hAB.trans hBC
    refine complete_bind (ih C _ _ _ (hps.2.append (henv.mono hAC)) hbody) fun b D hCD hb => ?_
    have hspec : Complete σ Δ D (spec f (Term.curried (ps.1.map .temp) (.temp b)))
        fun _ _ => True := by
      have hf' := hf.mono (hBC.trans hCD)
      rw [hσ] at hf'
      refine (complete_emits (emits_spec f _) ?_).mono fun _ _ _ => trivial
      exact List.forall_mem_singleton.mpr (meets_curried hf' (hps.1.mono hCD) hb)
    cases result with
    | none => exact complete_skip (silent_pure ()) fun _ => hspec
    | some ty =>
      obtain rfl : ty = τ := (hresult ty rfl).2.2
      exact complete_type hb hspec

/-- The constraints of a typed expression or definition can be satisfied. -/
lemma tree_complete : TreeCases (ExprComplete σ Δ) (DefComplete σ Δ) where
  const site value A env Γ τ henv htyped := by
    cases htyped with
    | const hσ => exact complete_node hσ fun t B _ ht => complete_type ht (complete_pure rfl)
  var site name A env Γ τ henv htyped := by
    cases htyped with
    | var hσ hname =>
      refine complete_node hσ fun t B hAB ht => ?_
      refine complete_constrainUse (henv.mono hAB) hname (fun s => emits_same t s) ?_
        fun _ _ => complete_pure rfl
      exact fun s C hBC hs => List.forall_mem_singleton.mpr (meets_same (ht.mono hBC) hs)
  constr site name A env Γ τ henv htyped := by
    cases htyped with
    | constr hσ hinfo hargs =>
      refine complete_node hσ fun t B hAB ht => ?_
      exact complete_construct hinfo ht (hargs ▸ .nil) (complete_pure rfl)
  construct site name args ih A env Γ τ henv htyped := by
    cases htyped with
    | construct hσ hinfo hargs =>
      refine complete_node hσ fun t B hAB ht => ?_
      refine complete_bind (complete_exprs ih (henv.mono hAB) hargs) fun ts C hBC hts => ?_
      exact complete_construct hinfo (ht.mono hBC) hts (complete_pure rfl)
  call site name args ih A env Γ τ henv htyped := by
    cases htyped with
    | call hσ hname hargs =>
      refine complete_node hσ fun t B hAB ht => ?_
      refine complete_bind (complete_exprs ih (henv.mono hAB) hargs) fun ts C hBC hts => ?_
      refine complete_constrainUse (henv.mono (hAB.trans hBC)) hname (fun f => emits_spec f _) ?_
        fun _ _ => complete_pure rfl
      intro f D hCD hf
      have ht' := ht.mono (hBC.trans hCD)
      exact List.forall_mem_singleton.mpr (meets_curried hf (hts.mono hCD) ht')
  element site name indices ih A env Γ τ henv htyped := by
    cases htyped with
    | @element _ _ _ _ τ hσ hname hindices =>
      refine complete_node hσ fun t B hAB ht => ?_
      refine complete_bind (complete_sizes ih (henv.mono hAB) hindices) fun _ C hBC _ => ?_
      refine complete_aux τ nofun fun e D hCD he => ?_
      have hAD := hAB.trans (hBC.trans hCD)
      refine complete_constrainUse (henv.mono hAD) hname (fun a => emits_spec a _) ?_ ?_
      · exact fun a E hDE ha => List.forall_mem_singleton.mpr (meets_array ha (he.mono hDE))
      · intro E hDE
        have ht' := ht.mono (hBC.trans (hCD.trans hDE))
        refine complete_emits_bind (emits_spec t _) ?_ (complete_pure rfl)
        exact List.forall_mem_singleton.mpr (meets_ref ht' (he.mono hDE))
  dim site dimension name A env Γ τ henv htyped := by
    cases htyped with
    | dim hσ hname _ =>
      refine complete_node hσ fun t B hAB ht => ?_
      refine complete_skip (silent_ite (silent_report _) (silent_pure ())) fun _ => ?_
      refine complete_constrainUse (henv.mono hAB) hname (fun a => emits_oneOf a _) ?_ ?_
      · intro a C _ ha
        refine List.forall_mem_singleton.mpr ⟨List.forall_mem_singleton.mpr ha.made, fun hC => ?_⟩
        simp [ha.type hC, Ty.kind]
      · exact fun C hBC => complete_type (ht.mono hBC) (complete_pure rfl)
  binary site op left right hl hr A env Γ τ henv htyped := by
    cases htyped with
    | binary hσ hleft hright hop =>
      refine complete_node hσ fun t B hAB ht => ?_
      refine complete_bind (hl B env Γ _ (henv.mono hAB) hleft) fun l C hBC hl => ?_
      refine complete_bind (hr C env Γ _ (henv.mono (hAB.trans hBC)) hright) fun r D hCD hr => ?_
      refine complete_emits_bind (emits_relate op t l r) ?_ (complete_pure rfl)
      exact hop.meets (hl.mono hCD) hr (ht.mono (hBC.trans hCD))
  unary site op operand ih A env Γ τ henv htyped := by
    cases htyped with
    | unary hσ hoperand hop =>
      refine complete_node hσ fun t B hAB ht => ?_
      refine complete_bind (ih B env Γ _ (henv.mono hAB) hoperand) fun o C hBC ho => ?_
      refine complete_emits_bind (emits_relateUnary op t o) ?_ (complete_pure rfl)
      exact hop.meets ho (ht.mono hBC)
  delete site operand ih A env Γ τ henv htyped := by
    cases htyped with
    | @delete _ _ _ τ hσ hoperand =>
      refine complete_node hσ fun t B hAB ht => ?_
      refine complete_bind (ih B env Γ _ (henv.mono hAB) hoperand) fun e C hBC he => ?_
      refine complete_aux τ nofun fun inner D hCD hinner => ?_
      refine complete_emits_bind (emits_spec e _) ?_ ?_
      · exact List.forall_mem_singleton.mpr (meets_ref (he.mono hCD) hinner)
      · exact complete_type (ht.mono (hBC.trans hCD)) (complete_pure rfl)
  new site ty A env Γ τ henv htyped := by
    cases htyped with
    | new hσ _ =>
      refine complete_node hσ fun t B _ ht => ?_
      refine complete_skip (silent_validate _ _ _) fun _ => ?_
      exact complete_type ht (complete_pure rfl)
  forLoop _ _ _ _ _ _ := exprComplete_forLoop
  whileLoop site condition body hc hb A env Γ τ henv htyped := by
    cases htyped with
    | whileLoop hσ hcondition hbody =>
      refine complete_node hσ fun t B hAB ht => ?_
      refine complete_bind (hc B env Γ _ (henv.mono hAB) hcondition) fun c C hBC hc => ?_
      refine complete_bind (hb C env Γ _ (henv.mono (hAB.trans hBC)) hbody) fun b D hCD hb => ?_
      refine complete_type (hc.mono hCD) (complete_type hb ?_)
      exact complete_type (ht.mono (hBC.trans hCD)) (complete_pure rfl)
  ifThen site condition positive hc hp A env Γ τ henv htyped := by
    cases htyped with
    | ifThen hσ hcondition hpositive =>
      refine complete_node hσ fun t B hAB ht => ?_
      refine complete_bind (hc B env Γ _ (henv.mono hAB) hcondition) fun c C hBC hc => ?_
      refine complete_type hc ?_
      refine complete_bind (hp C env Γ _ (henv.mono (hAB.trans hBC)) hpositive) fun p D hCD hp => ?_
      exact complete_type hp (complete_type (ht.mono (hBC.trans hCD)) (complete_pure rfl))
  ifElse site condition positive negative hc hp hn A env Γ τ henv htyped := by
    cases htyped with
    | ifElse hσ hcondition hpositive hnegative =>
      refine complete_node hσ fun t B hAB ht => ?_
      refine complete_bind (hc B env Γ _ (henv.mono hAB) hcondition) fun c C hBC hc => ?_
      refine complete_type hc ?_
      have hAC := hAB.trans hBC
      refine complete_bind (hp C env Γ _ (henv.mono hAC) hpositive) fun p D hCD hp => ?_
      refine complete_bind (hn D env Γ _ (henv.mono (hAC.trans hCD)) hnegative) fun n E hDE hn => ?_
      have ht' := ht.mono (hBC.trans (hCD.trans hDE))
      have hp' := hp.mono hDE
      exact complete_same hp' hn (complete_same ht' hp' (complete_pure rfl))
  letIn site group body hg hb A env Γ τ henv htyped := by
    cases htyped with
    | letIn hσ hgroup hbody =>
      refine complete_node hσ fun t B hAB ht => ?_
      refine complete_bind (complete_group hg (henv.mono hAB) hgroup) fun scope C hBC hscope => ?_
      have hAC := hAB.trans hBC
      refine complete_bind (hb C _ _ _ (hscope.append (henv.mono hAC)) hbody) fun b D hCD hb => ?_
      exact complete_same (ht.mono (hBC.trans hCD)) hb (complete_pure rfl)
  matchWith site scrutinee clauses hs hc A env Γ τ henv htyped := by
    cases htyped with
    | matchWith hσ hscrutinee hpatterns hbodies =>
      refine complete_node hσ fun t B hAB ht => ?_
      refine complete_bind (hs B env Γ _ (henv.mono hAB) hscrutinee) fun s C hBC hs => ?_
      refine complete_bind (complete_clauses hc (henv.mono (hAB.trans hBC)) (ht.mono hBC) hs
        hpatterns hbodies) fun _ _ _ _ => complete_pure rfl
  function _ _ _ _ _ := defComplete_function
  constant site name ty body ih A env Γ henv htyped := by
    have hdeclared := htyped.declared
    cases htyped with
    | constant hσ _ hbody =>
      refine complete_skip (silent_validateOption _ _ _) fun _ => ?_
      refine complete_tempFor hdeclared fun c B hAB hc => ?_
      rw [hσ] at hc
      refine complete_bind (ih B env Γ _ (henv.mono hAB) hbody) fun b C hBC hb => ?_
      refine (complete_emits (emits_same c b) ?_).mono fun _ _ _ => trivial
      exact List.forall_mem_singleton.mpr (meets_same (hc.mono hBC) hb)
  mutableVar site name ty A env Γ henv htyped := by
    have hdeclared := htyped.declared
    cases htyped with
    | mutableVar _ _ =>
      exact complete_tempFor hdeclared fun _ _ _ _ => (silent_validate _ _ _).complete
  mutableArray site name dims ty ih A env Γ henv htyped := by
    have hdeclared := htyped.declared
    cases htyped with
    | mutableArray _ _ hdims =>
      refine complete_bind (complete_sizes ih henv hdims) fun _ B _ _ => ?_
      exact complete_tempFor hdeclared fun _ _ _ _ => (silent_validate _ _ _).complete

lemma definitions_complete {ds : List Definition} {w : Walk} (htypes : w.types = Δ.table)
    (hpassed : w.passed = Δ.passed) (hfulfils : Fulfils σ A w.inference) (henv : Knows A env Γ)
    (htyped : DefinitionsTyped σ Δ Γ ds) :
    ∃ B, Fulfils σ B (elaborateDefinitions ds env w).2.inference := by
  induction htyped generalizing A env w with
  | nil => exact ⟨A, hfulfils⟩
  | @lets Δ Γ group rest hgroup hrest ih =>
    obtain ⟨htypes', hpassed', B, hAB, hB, hscope⟩ :=
      complete_group (tree_complete.group group) henv hgroup w htypes hpassed hfulfils
    exact ih htypes' hpassed' hB (hscope.append (henv.mono hAB))
  | @types Δ Γ group rest hrest ih =>
    have hrun : elaborateDefinitions (.types group :: rest) env w =
        elaborateDefinitions rest env (group.analyze w).2 := rfl
    rw [hrun, typeGroup_run]
    refine ih ?_ ?_ hfulfils henv
    · rw [htypes]
      rfl
    · rw [hpassed]
      rfl

/-- What elaboration collects from a typed program has a model, if 32 bits suffice for its tags. -/
lemma program_complete {program : Program} {types : TypeTable} (firstTag : Tag)
    (htyped : ProgramTyped σ types program)
    (hcount : (elaborateProgram program (Walk.initial types firstTag)).2.inference.temps.size ≤
      UInt32.size) :
    ∃ θ, Model θ σ (elaborateProgram program (Walk.initial types firstTag)).2.inference := by
  have hinitial : Fulfils σ ⟨firstTag, 0, fun _ => .unit⟩ (Inference.startingAt firstTag) :=
    ⟨(UInt32.add_zero _).symm, rfl, nofun, nofun, nofun⟩
  have hcomplete : ∃ B, Fulfils σ B
      (elaborateProgram program (Walk.initial types firstTag)).2.inference :=
    definitions_complete (Δ := ⟨types, []⟩) rfl rfl hinitial (binds_library fun _ _ => rfl) htyped
  obtain ⟨B, hB⟩ := hcomplete
  have hapart : B.Apart := by
    rw [Assignment.Apart, ← hB.count]
    exact hcount
  refine ⟨B.types, fun c hc => (hB.constraints c hc).holds hapart, fun node tag htag => ?_⟩
  obtain ⟨temp, hmem, hprimary, rfl, rfl⟩ := exists_temp_of_primary? htag
  exact ((hB.primary temp hmem hprimary).type hapart).symm

end

end Llama.Proofs
