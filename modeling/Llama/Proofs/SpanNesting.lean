import Llama.Proofs.TokenTiling
import Llama.Proofs.TreeHeight
import Llama.Proofs.TreeLayout

/-!
# Spans are nested

The span of a node reaches from the start of a token to the end of a token. Parentheses and other
tokens around a node may lie outside of its span, but the spans of its children never do: they lie
inside in the order of the source and do not overlap.
-/

namespace Llama.Proofs

variable {ts us : List Token} {ps : List Part}

/-- The nodes among parts. -/
def nodesAmong (ps : List Part) : List Node :=
  ps.filterMap fun
    | .node n => some n
    | _ => none

lemma nodesAmong_append (ps qs : List Part) :
    nodesAmong (ps ++ qs) = nodesAmong ps ++ nodesAmong qs :=
  List.filterMap_append

lemma nodesAmong_name (name : String) (ps : List Part) :
    nodesAmong (.name name :: ps) = nodesAmong ps := rfl

lemma nodesAmong_nodes {α : Type} (f : α → Node) (l : List α) :
    nodesAmong (l.map fun a => .node (f a)) = l.map f := by
  unfold nodesAmong
  rw [List.filterMap_map, ← List.filterMap_eq_map]
  rfl

lemma nodesAmong_types (l : List Ty) : nodesAmong (l.map .ty) = [] := by
  unfold nodesAmong
  rw [List.filterMap_map]
  exact List.filterMap_eq_nil_iff.mpr fun _ _ => rfl

lemma nodesAmong_spelling (h : Spelling ts ps) : nodesAmong ps = [] := by
  cases h <;> rfl

/-- The nodes among the parts of a node are its children. -/
lemma nodesAmong_parts (n : Node) : nodesAmong (parts n) = n.children := by
  cases n with
  | letGroup g => exact nodesAmong_nodes _ _
  | definition d =>
    cases d with
    | function _ name params result body =>
      rw [parts, defParts, nodesAmong_append, nodesAmong_append, nodesAmong_types, List.append_nil,
        nodesAmong_name, nodesAmong_nodes]
      rfl
    | constant _ name ty body =>
      rw [parts, defParts, nodesAmong_append, nodesAmong_name, nodesAmong_types]
      rfl
    | mutableVar _ name ty => exact nodesAmong_types _
    | mutableArray _ name dims ty =>
      rw [parts, defParts, nodesAmong_append, nodesAmong_name, nodesAmong_types, nodesAmong_nodes,
        List.append_nil]
      rfl
  | param p => exact nodesAmong_types _
  | expr e =>
    cases e with
    | construct _ _ args => exact nodesAmong_nodes _ _
    | element _ _ args => exact nodesAmong_nodes _ _
    | call _ _ args => exact nodesAmong_nodes _ _
    | matchWith _ scrutinee clauses =>
      exact congrArg (Node.expr scrutinee :: ·) (nodesAmong_nodes _ _)
    | _ => rfl
  | clause c => rfl
  | pattern p =>
    cases p with
    | constr _ _ args => exact nodesAmong_nodes _ _
    | const _ _ => rfl
    | var _ _ => rfl
  | typeGroup g => exact nodesAmong_nodes _ _
  | typeDef d => exact nodesAmong_nodes _ _
  | constructor c => exact nodesAmong_types _

/-- The span reaches from the start of the first token to the end of the last one. -/
structure Spanned (run : List Token) (span : Span) : Prop where
  start : ∃ t, run.head? = some t ∧ t.span.start = span.start
  stop : ∃ t, run.getLast? = some t ∧ t.span.stop = span.stop

/-- The spans belong to stretches of the tokens that follow each other. -/
def Stretches : List Token → List Span → Prop
  | _, [] => True
  | ts, span :: spans =>
    ∃ gap run rest, ts = gap ++ run ++ rest ∧ Spanned run span ∧ Stretches rest spans

def spansOf (nodes : List Node) : List Span := nodes.map fun n => n.site.span

variable {spans : List Span} {span : Span} {place : Place}

lemma ne_nil_of_head? {t : Token} (h : ts.head? = some t) : ts ≠ [] := by
  rintro rfl
  cases h

lemma Stretches.prepend (us : List Token) (h : Stretches ts spans) :
    Stretches (us ++ ts) spans := by
  cases spans with
  | nil => trivial
  | cons span spans =>
    obtain ⟨gap, run, rest, rfl, hrun, hrest⟩ := h
    exact ⟨us ++ gap, run, rest, by simp only [List.append_assoc], hrun, hrest⟩

/-- Without what stands before the first span. -/
lemma Stretches.exists_from_start (h : Stretches ts (spansOf (nodesAmong ps)))
    (hstart : StartsAt ts ps place) :
    ∃ gap run, ts = gap ++ run ∧ (∃ t, run.head? = some t ∧ t.span.start = place) ∧
      Stretches run (spansOf (nodesAmong ps)) := by
  rcases hstart with hfirst | ⟨n, hn, rfl⟩
  · exact ⟨[], ts, rfl, hfirst, h⟩
  · cases ps with
    | nil => cases hn
    | cons part ps =>
      cases hn
      obtain ⟨gap, run, rest, rfl, hrun, hrest⟩ := h
      obtain ⟨t, ht, hplace⟩ := hrun.start
      refine ⟨gap, run ++ rest, List.append_assoc _ _ _, ⟨t, ?_, hplace⟩, ?_⟩
      · rw [List.head?_append, ht]
        rfl
      · exact ⟨[], run, rest, rfl, hrun, hrest⟩

/-- Without what stands after the last span. -/
lemma Stretches.exists_until_last (h : Stretches ts (spans ++ [span])) :
    ∃ run rest, ts = run ++ rest ∧ (∃ t, run.getLast? = some t ∧ t.span.stop = span.stop) ∧
      Stretches run (spans ++ [span]) := by
  induction spans generalizing ts with
  | nil =>
    obtain ⟨gap, run, rest, rfl, hrun, -⟩ := h
    obtain ⟨t, ht, hplace⟩ := hrun.stop
    refine ⟨gap ++ run, rest, rfl, ⟨t, ?_, hplace⟩, gap, run, [], ?_, hrun, trivial⟩
    · rw [List.getLast?_append, ht]
      rfl
    · rw [List.append_nil]
  | cons first spans ih =>
    obtain ⟨gap, run, rest, rfl, hrun, hrest⟩ := h
    obtain ⟨later, beyond, rfl, ⟨t, ht, hplace⟩, hlater⟩ := ih hrest
    refine ⟨gap ++ run ++ later, beyond, by simp only [List.append_assoc], ⟨t, ?_, hplace⟩, ?_⟩
    · rw [List.getLast?_append, ht]
      rfl
    · exact ⟨gap, run, later, rfl, hrun, hlater⟩

lemma Stretches.exists_until_stop (h : Stretches ts (spansOf (nodesAmong ps)))
    (hstop : StopsAt ts ps place) :
    ∃ run rest, ts = run ++ rest ∧ (∃ t, run.getLast? = some t ∧ t.span.stop = place) ∧
      Stretches run (spansOf (nodesAmong ps)) := by
  rcases hstop with hlast | ⟨n, hn, rfl⟩
  · exact ⟨ts, [], (List.append_nil _).symm, hlast, h⟩
  · obtain ⟨before, rfl⟩ := List.getLast?_eq_some_iff.mp hn
    have hsplit : spansOf (nodesAmong (before ++ [.node n])) =
        spansOf (nodesAmong before) ++ [n.site.span] := by
      rw [nodesAmong_append]
      exact List.map_append
    rw [hsplit] at h ⊢
    exact h.exists_until_last

/-- Of the tokens of a node those in its span, which hold the spans of its children. -/
lemma exists_run {n : Node} (h : Stretches us (spansOf (nodesAmong (parts n))))
    (hbounds : Bounds us n) :
    ∃ gap run rest, us = gap ++ run ++ rest ∧ Spanned run n.site.span ∧
      Stretches run (spansOf (nodesAmong (parts n))) := by
  obtain ⟨gap, later, rfl, ⟨t, ht, hstart⟩, hlater⟩ := h.exists_from_start hbounds.start
  have hstop : StopsAt later (parts n) n.site.span.stop := by
    rcases hbounds.stop with ⟨last, hlast, hplace⟩ | hpart
    · refine .inl ⟨last, ?_, hplace⟩
      rwa [List.getLast?_append_of_ne_nil _ (ne_nil_of_head? ht)] at hlast
    · exact .inr hpart
  obtain ⟨run, rest, rfl, ⟨last, hlast, hplace⟩, hrun⟩ := hlater.exists_until_stop hstop
  refine ⟨gap, run, rest, (List.append_assoc _ _ _).symm,
    ⟨⟨t, ?_, hstart⟩, last, hlast, hplace⟩, hrun⟩
  have hne : run ≠ [] := by
    rintro rfl
    cases hlast
  rwa [List.head?_append_of_ne_nil _ hne] at ht

/-- The spans of the nodes that tokens are woven of follow each other. -/
lemma Woven.stretches (h : Woven ts ps) : Stretches ts (spansOf (nodesAmong ps)) := by
  induction h with
  | nil => trivial
  | @mark t _ _ _ _ ih => exact ih.prepend [t]
  | @sign t _ _ _ _ _ ih => exact ih.prepend [t]
  | @spelled us _ qs ps hspelled _ ih =>
    rw [nodesAmong_append, nodesAmong_spelling hspelled]
    exact ih.prepend us
  | node _ hbounds _ ihinside ihrest =>
    obtain ⟨gap, run, rest, rfl, hrun, -⟩ := exists_run ihinside hbounds
    exact ⟨gap, run, rest ++ _, by simp only [List.append_assoc], hrun, ihrest.prepend rest⟩

/-- Each of the nodes that tokens are woven of has tokens of its own among them. -/
lemma Woven.exists_of_mem (h : Woven ts ps) {n : Node} (hn : n ∈ nodesAmong ps) :
    ∃ us, us <:+: ts ∧ Woven us (parts n) ∧ Bounds us n := by
  induction h with
  | nil => cases hn
  | mark _ _ ih =>
    obtain ⟨us, hus, hwoven⟩ := ih hn
    exact ⟨us, List.infix_cons hus, hwoven⟩
  | sign _ _ ih =>
    obtain ⟨us, hus, hwoven⟩ := ih hn
    exact ⟨us, List.infix_cons hus, hwoven⟩
  | spelled hspelled _ ih =>
    rw [nodesAmong_append, nodesAmong_spelling hspelled] at hn
    obtain ⟨us, hus, hwoven⟩ := ih hn
    exact ⟨us, hus.trans (List.suffix_append _ _).isInfix, hwoven⟩
  | node hinside hbounds _ _ ih =>
    rcases List.mem_cons.mp hn with rfl | hn
    · exact ⟨_, (List.prefix_append _ _).isInfix, hinside, hbounds⟩
    · obtain ⟨us, hus, hwoven⟩ := ih hn
      exact ⟨us, hus.trans (List.suffix_append _ _).isInfix, hwoven⟩

/-- The tokens are not empty and follow each other without overlap. -/
structure InOrder (ts : List Token) : Prop where
  nonempty : ∀ t ∈ ts, t.span.start.Before t.span.stop
  disjoint : ts.Pairwise fun t t' => ¬ t'.span.start.Before t.span.stop

lemma InOrder.sublist (h : InOrder ts) (hsub : us.Sublist ts) : InOrder us where
  nonempty t ht := h.nonempty t (hsub.subset ht)
  disjoint := h.disjoint.sublist hsub

lemma inOrder_of_lex {source : String} (h : Token.lex source = .ok ts) : InOrder ts := by
  have htiles := (shows_scan (scan_of_lex h)).tiles
  exact ⟨htiles.nonempty, htiles.disjoint⟩

/-- No token starts before the first one. -/
lemma InOrder.not_start_before (h : InOrder ts) {first : Token} (hfirst : ts.head? = some first) :
    ∀ t ∈ ts, ¬ t.span.start.Before first.span.start := by
  obtain ⟨later, rfl⟩ := List.head?_eq_some_iff.mp hfirst
  refine List.forall_mem_cons.mpr ⟨Place.Before.irrefl _, fun t ht hbefore => ?_⟩
  have hdisjoint := (List.pairwise_cons.mp h.disjoint).1 t ht
  exact hdisjoint (hbefore.trans (h.nonempty first (List.mem_cons_self ..)))

/-- No token stops after the last one. -/
lemma InOrder.not_stop_before (h : InOrder ts) {last : Token} (hlast : ts.getLast? = some last) :
    ∀ t ∈ ts, ¬ last.span.stop.Before t.span.stop := by
  obtain ⟨earlier, rfl⟩ := List.getLast?_eq_some_iff.mp hlast
  refine List.forall_mem_append.mpr ⟨fun t ht hbefore => ?_,
    List.forall_mem_singleton.mpr (Place.Before.irrefl _)⟩
  have hdisjoint := (List.pairwise_append.mp h.disjoint).2.2 t ht last (List.mem_singleton_self _)
  have hnonempty := h.nonempty last (List.mem_append_right _ (List.mem_singleton_self _))
  exact hdisjoint (hnonempty.trans hbefore)

/-- Each of the spans starts and stops with one of the tokens. -/
lemma Stretches.exists_of_mem (h : Stretches ts spans) (hspan : span ∈ spans) :
    (∃ t ∈ ts, t.span.start = span.start) ∧ ∃ t ∈ ts, t.span.stop = span.stop := by
  induction spans generalizing ts with
  | nil => cases hspan
  | cons first spans ih =>
    obtain ⟨gap, run, rest, rfl, hrun, hrest⟩ := h
    rcases List.mem_cons.mp hspan with rfl | hspan
    · obtain ⟨t, ht, hstart⟩ := hrun.start
      obtain ⟨t', ht', hstop⟩ := hrun.stop
      exact ⟨⟨t, by simp [List.mem_of_head? ht], hstart⟩,
        t', by simp [List.mem_of_getLast? ht'], hstop⟩
    · obtain ⟨⟨t, ht, hstart⟩, t', ht', hstop⟩ := ih hrest hspan
      exact ⟨⟨t, List.mem_append_right _ ht, hstart⟩, t', List.mem_append_right _ ht', hstop⟩

lemma Stretches.pairwise (h : Stretches ts spans) (horder : InOrder ts) :
    spans.Pairwise fun a b => ¬ b.start.Before a.stop := by
  induction spans generalizing ts with
  | nil => exact .nil
  | cons first spans ih =>
    obtain ⟨gap, run, rest, rfl, hrun, hrest⟩ := h
    refine .cons (fun span hspan => ?_) (ih hrest (horder.sublist (List.sublist_append_right _ _)))
    obtain ⟨t, ht, hstop⟩ := hrun.stop
    obtain ⟨⟨t', ht', hstart⟩, -⟩ := hrest.exists_of_mem hspan
    rw [← hstop, ← hstart]
    refine (List.pairwise_append.mp horder.disjoint).2.2 t ?_ t' ht'
    exact List.mem_append_right _ (List.mem_of_getLast? ht)

/-- The span of a node reaches from a token to the same or a later one. The spans of its children
lie inside, in order and without overlap. -/
structure SpanNested (tokens : List Token) (n : Node) : Prop where
  tokens : ∃ (i j : Nat) (first last : Token), i ≤ j ∧ tokens[i]? = some first ∧
    tokens[j]? = some last ∧ n.site.span = first.span.merge last.span
  nonempty : n.site.span.start.Before n.site.span.stop
  contains : ∀ c ∈ n.children, ¬ c.site.span.start.Before n.site.span.start ∧
    ¬ n.site.span.stop.Before c.site.span.stop
  ordered : n.children.Pairwise fun a b => ¬ b.site.span.start.Before a.site.span.stop

lemma spanNested_of_woven {tokens : List Token} {n : Node} (horder : InOrder tokens)
    (hpart : us <:+: tokens) (h : Woven us (parts n)) (hbounds : Bounds us n) :
    SpanNested tokens n := by
  obtain ⟨xs, ys, rfl⟩ := hpart
  obtain ⟨gap, run, rest, rfl, hrun, hchildren⟩ := exists_run h.stretches hbounds
  rw [nodesAmong_parts] at hchildren
  have hrunOrder : InOrder run := by
    refine horder.sublist (List.IsInfix.sublist ⟨xs ++ gap, rest ++ ys, ?_⟩)
    simp only [List.append_assoc]
  obtain ⟨first, hfirst, hstart⟩ := hrun.start
  obtain ⟨last, hlast, hstop⟩ := hrun.stop
  refine ⟨?_, ?_, fun c hc => ?_, ?_⟩
  · -- the first and the last token of the run stand after what comes before the run
    obtain ⟨later, hcons⟩ := List.head?_eq_some_iff.mp hfirst
    obtain ⟨earlier, hsnoc⟩ := List.getLast?_eq_some_iff.mp hlast
    refine ⟨(xs ++ gap).length, (xs ++ gap ++ earlier).length, first, last, by simp, ?_, ?_, ?_⟩
    · rw [hcons]
      simp
    · rw [hsnoc]
      simp
    · rw [Span.merge, hstart, hstop]
  · have hsome := hrunOrder.nonempty first (List.mem_of_head? hfirst)
    rw [← hstart, ← hstop]
    exact hsome.trans_not (hrunOrder.not_stop_before hlast first (List.mem_of_head? hfirst))
  · obtain ⟨⟨t, ht, hstart'⟩, t', ht', hstop'⟩ :=
      hchildren.exists_of_mem (List.mem_map_of_mem hc)
    rw [← hstart, ← hstop, ← hstart', ← hstop']
    exact ⟨hrunOrder.not_start_before hfirst t ht, hrunOrder.not_stop_before hlast t' ht'⟩
  · exact List.pairwise_map.mp (hchildren.pairwise hrunOrder)

/-- In a program that is read from a text the spans of all nodes are nested, and so are those of the
definitions at its top in order. -/
theorem spans_nested {source : String} {tokens : List Token} {program : Program}
    (hlex : Token.lex source = .ok tokens) (hparse : (parse tokens).program = some program) :
    (∀ n ∈ program.nodes, SpanNested tokens n) ∧
      program.definitions.Pairwise fun a b => ¬ b.site.span.start.Before a.site.span.stop := by
  have horder := inOrder_of_lex hlex
  have hwoven := woven_of_parse hparse
  refine ⟨?_, ?_⟩
  · -- every node has tokens of its own, which is handed down from the definitions to all nodes
    have hown : ∀ n ∈ program.nodes, ∃ us, us <:+: tokens ∧ Woven us (parts n) ∧ Bounds us n := by
      refine (program_postOrder program).forall_of_roots (fun n hn c hc => ?_) fun n hn => ?_
      · obtain ⟨us, hus, hparts, -⟩ := hn
        rw [← nodesAmong_parts] at hc
        obtain ⟨vs, hvs, hchild⟩ := hparts.exists_of_mem hc
        exact ⟨vs, hvs.trans hus, hchild⟩
      · exact hwoven.exists_of_mem (by rwa [nodesAmong_nodes])
    intro n hn
    obtain ⟨us, hus, hparts, hbounds⟩ := hown n hn
    exact spanNested_of_woven horder hus hparts hbounds
  · have hpairwise := hwoven.stretches.pairwise horder
    rw [nodesAmong_nodes, spansOf, List.map_map] at hpairwise
    refine (List.pairwise_map.mp hpairwise).imp fun {a b} hab => ?_
    cases a <;> cases b <;> exact hab

/-- The product starts with the sum, after the parenthesis before it. -/
def bracketedSource : String := "let f (x : int) = (x + 1) * 2\ntype t = A of t | B"

theorem spans_nested_bracketedSource :
    ∃ tokens program, Token.lex bracketedSource = .ok tokens ∧
      (parse tokens).program = some program ∧
      spansOf program.nodes =
        [⟨⟨0, 6⟩, ⟨0, 15⟩⟩, ⟨⟨0, 19⟩, ⟨0, 20⟩⟩, ⟨⟨0, 23⟩, ⟨0, 24⟩⟩, ⟨⟨0, 19⟩, ⟨0, 24⟩⟩,
          ⟨⟨0, 28⟩, ⟨0, 29⟩⟩, ⟨⟨0, 19⟩, ⟨0, 29⟩⟩, ⟨⟨0, 4⟩, ⟨0, 29⟩⟩, ⟨⟨0, 0⟩, ⟨0, 29⟩⟩,
          ⟨⟨1, 9⟩, ⟨1, 15⟩⟩, ⟨⟨1, 18⟩, ⟨1, 19⟩⟩, ⟨⟨1, 5⟩, ⟨1, 19⟩⟩, ⟨⟨1, 0⟩, ⟨1, 19⟩⟩] ∧
      (∀ n ∈ program.nodes, SpanNested tokens n) ∧
      program.definitions.Pairwise fun a b => ¬ b.site.span.start.Before a.site.span.stop := by
  have hread : (programOf? bracketedSource).map (fun read => spansOf read.2.nodes) = some
      [⟨⟨0, 6⟩, ⟨0, 15⟩⟩, ⟨⟨0, 19⟩, ⟨0, 20⟩⟩, ⟨⟨0, 23⟩, ⟨0, 24⟩⟩, ⟨⟨0, 19⟩, ⟨0, 24⟩⟩,
        ⟨⟨0, 28⟩, ⟨0, 29⟩⟩, ⟨⟨0, 19⟩, ⟨0, 29⟩⟩, ⟨⟨0, 4⟩, ⟨0, 29⟩⟩, ⟨⟨0, 0⟩, ⟨0, 29⟩⟩,
        ⟨⟨1, 9⟩, ⟨1, 15⟩⟩, ⟨⟨1, 18⟩, ⟨1, 19⟩⟩, ⟨⟨1, 5⟩, ⟨1, 19⟩⟩, ⟨⟨1, 0⟩, ⟨1, 19⟩⟩] := by
    decide +kernel
  obtain ⟨⟨tokens, program⟩, hprogram, hspans⟩ := Option.map_eq_some_iff.mp hread
  obtain ⟨hlex, hparse⟩ := exists_of_programOf? hprogram
  exact ⟨tokens, program, hlex, hparse, hspans, spans_nested hlex hparse⟩

end Llama.Proofs
