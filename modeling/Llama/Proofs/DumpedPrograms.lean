import Llama.Proofs.DumpedTrees
import Llama.Proofs.ParsedNames

/-!
# Programs from their texts

Two programs that were parsed from texts, have no float and are shown alike are the same up to
their sites: all their names are names of a source, so that the nested lists tell the trees. They
have the same number of nodes, too.
-/

namespace Llama.Proofs

open Llama.Parser Llama.Grammar

lemma length_flatMap_map {β : Type} {l : List β} {bare : β → β} {nodes : β → List Node}
    (h : ∀ a ∈ l, (nodes (bare a)).length = (nodes a).length) :
    ((l.map bare).flatMap nodes).length = (l.flatMap nodes).length := by
  induction l with
  | nil => rfl
  | cons a l ih =>
    obtain ⟨ha, hl⟩ := List.forall_mem_cons.mp h
    simp only [List.map_cons, List.flatMap_cons, List.length_append, ha, ih hl]

lemma length_barePattern : PatternCases fun p => (barePattern p).nodes.length = p.nodes.length where
  constr _ _ args ih := by
    simp only [barePattern, Pattern.nodes, patternNodes_eq_flatMap, barePatterns_eq_map,
      List.length_append, List.length_singleton, length_flatMap_map ih]
  const _ _ := rfl
  var _ _ := rfl

lemma length_bareExprs {es : List Expr} (h : ∀ e ∈ es, (bareExpr e).nodes.length = e.nodes.length) :
    (Expr.nodesOfList (bareExprs es)).length = (Expr.nodesOfList es).length := by
  rw [exprNodes_eq_flatMap, exprNodes_eq_flatMap, bareExprs_eq_map, length_flatMap_map h]

lemma length_bareClauses {cs : List Clause}
    (h : ∀ c ∈ cs, (bareExpr c.body).nodes.length = c.body.nodes.length) :
    (Clause.nodesOfList (bareClauses cs)).length = (Clause.nodesOfList cs).length := by
  rw [clauseNodes_eq_flatMap, clauseNodes_eq_flatMap, bareClauses_eq_map]
  refine length_flatMap_map fun c hc => ?_
  obtain ⟨site, pattern, body⟩ := c
  have hbody : (bareExpr body).nodes.length = body.nodes.length := h _ hc
  simp only [bareClause, Clause.pattern, Clause.body, Clause.nodes, List.length_append,
    List.length_singleton, length_barePattern.pattern pattern, hbody]

lemma length_bareGroup {g : LetGroup}
    (h : ∀ d ∈ g.defs, (bareDef d).nodes.length = d.nodes.length) :
    (bareGroup g).nodes.length = g.nodes.length := by
  obtain ⟨site, isRec, defs⟩ := g
  have hdefs : ((defs.map bareDef).flatMap Def.nodes).length = (defs.flatMap Def.nodes).length :=
    length_flatMap_map h
  simp only [bareGroup, LetGroup.nodes, defNodes_eq_flatMap, bareDefs_eq_map, List.length_append,
    List.length_singleton, hdefs]

lemma length_bareTree : TreeCases (fun e => (bareExpr e).nodes.length = e.nodes.length)
    (fun d => (bareDef d).nodes.length = d.nodes.length) where
  binary _ _ _ _ hl hr := by simp [Expr.nodes, hl, hr]
  unary _ _ _ h := by simp [Expr.nodes, h]
  construct _ _ _ h := by simp [Expr.nodes, length_bareExprs h]
  element _ _ _ h := by simp [Expr.nodes, length_bareExprs h]
  const _ _ := rfl
  constr _ _ := rfl
  var _ _ := rfl
  delete _ _ h := by simp [Expr.nodes, h]
  dim _ _ _ := rfl
  forLoop _ _ _ _ _ _ hf hl hb := by simp [Expr.nodes, hf, hl, hb]
  call _ _ _ h := by simp [Expr.nodes, length_bareExprs h]
  letIn _ _ _ hg hb := by simp [Expr.nodes, length_bareGroup hg, hb]
  ifThen _ _ _ hc hp := by simp [Expr.nodes, hc, hp]
  ifElse _ _ _ _ hc hp hn := by simp [Expr.nodes, hc, hp, hn]
  matchWith _ _ _ hs hc := by simp [Expr.nodes, hs, length_bareClauses hc]
  new _ _ := rfl
  whileLoop _ _ _ hc hb := by simp [Expr.nodes, hc, hb]
  function _ _ _ _ _ hb := by simp [Def.nodes, hb]
  constant _ _ _ _ hb := by simp [Def.nodes, hb]
  mutableVar _ _ _ := rfl
  mutableArray _ _ _ _ h := by simp [Def.nodes, length_bareExprs h]

lemma length_bareDefinition (d : Definition) :
    (bareDefinition d).nodes.length = d.nodes.length := by
  cases d with
  | lets group => exact length_bareGroup (length_bareTree.group group)
  | types group =>
    have hdefs : ((group.defs.map bareTypeDef).flatMap TypeDef.nodes).length =
        (group.defs.flatMap TypeDef.nodes).length :=
      length_flatMap_map fun d _ => by simp [bareTypeDef, TypeDef.nodes]
    simp only [bareDefinition, bareTypeGroup, Definition.nodes, TypeGroup.nodes, List.length_append,
      List.length_singleton, hdefs]

/-- A parsed program has as many nodes as numbers were drawn. -/
lemma length_nodes_of_parse {tokens : List Token} {program : Program}
    (h : (parse tokens).program = some program) : program.nodes.length = program.nodeCount := by
  obtain ⟨s, hrun, hclean, -, hcount⟩ := exists_run_of_parse h
  have hrange := range_definitionsUpTo (deeper_yields maxNesting) (deeper_scans maxNesting)
    tokens.toArray.size hrun hclean
  have hlength := congrArg List.length hrange
  rw [List.length_range, List.length_append, List.length_range, numbers, List.length_map] at hlength
  rw [hcount, hlength, Program.nodes]
  exact (Nat.zero_add _).symm

/-- Programs parsed from two texts without a float that are dumped alike differ in sites only. -/
theorem dump_determines_program {source source' : String} {tokens tokens' : List Token}
    {p q : Program} (hlex : Token.lex source = .ok tokens)
    (hlex' : Token.lex source' = .ok tokens') (hp : (parse tokens).program = some p)
    (hq : (parse tokens').program = some q) (hfloats : ∀ n ∈ p.nodes, isFloat n = false)
    (hfloats' : ∀ n ∈ q.nodes, isFloat n = false) (htext : p.text = q.text) :
    p.definitions.map bareDefinition = q.definitions.map bareDefinition ∧
      p.nodeCount = q.nodeCount := by
  have hbare := program_of_text (fun n hn => ⟨named_of_parse hlex hp n hn, hfloats n hn⟩)
    (fun n hn => ⟨named_of_parse hlex' hq n hn, hfloats' n hn⟩) htext
  refine ⟨hbare, ?_⟩
  rw [← length_nodes_of_parse hp, ← length_nodes_of_parse hq]
  have hnodes : ∀ program : Program, ((program.definitions.map bareDefinition).flatMap
      Definition.nodes).length = program.nodes.length :=
    fun program => length_flatMap_map fun d _ => length_bareDefinition d
  rw [← hnodes p, hbare, hnodes q]

/-- What is shown of the program in a text, and whether it has no float. -/
def shown (source : String) : Option (String × Bool) :=
  match Token.lex source with
  | .ok tokens => (parse tokens).program.map fun p => (p.text, p.nodes.all fun n => !isFloat n)
  | .error _ => none

lemma exists_of_shown {source text : String} (h : shown source = some (text, true)) :
    ∃ tokens p, Token.lex source = .ok tokens ∧ (parse tokens).program = some p ∧
      p.text = text ∧ ∀ n ∈ p.nodes, isFloat n = false := by
  unfold shown at h
  split at h
  next tokens hlex =>
    obtain ⟨p, hp, hshown⟩ := Option.map_eq_some_iff.mp h
    obtain ⟨htext, hfloats⟩ := Prod.mk.inj hshown
    exact ⟨tokens, p, hlex, hp, htext, by simpa using hfloats⟩
  next => cases h

/-- A function with names that the texts of trees use as heads. -/
def spacedSource : String := "let fun (const : int) = - const + 1"

/-- The same function with other blanks and parentheses, and a comment. -/
def tightSource : String := "let fun(const:(int))=(-const)+1(*)*)"

theorem dump_determines_spacedSource :
    ∃ tokens tokens' p q, Token.lex spacedSource = .ok tokens ∧
      Token.lex tightSource = .ok tokens' ∧ (parse tokens).program = some p ∧
      (parse tokens').program = some q ∧
      p.text = "(let (fun fun ((const : int)) (+ (- const) 1)))\n" ∧
      p.definitions.map bareDefinition = q.definitions.map bareDefinition ∧
      p.nodeCount = q.nodeCount := by
  have hspaced : shown spacedSource =
      some ("(let (fun fun ((const : int)) (+ (- const) 1)))\n", true) := by decide +kernel
  have htight : shown tightSource =
      some ("(let (fun fun ((const : int)) (+ (- const) 1)))\n", true) := by decide +kernel
  obtain ⟨tokens, p, hlex, hp, htext, hfloats⟩ := exists_of_shown hspaced
  obtain ⟨tokens', q, hlex', hq, htext', hfloats'⟩ := exists_of_shown htight
  exact ⟨tokens, tokens', p, q, hlex, hlex', hp, hq, htext,
    dump_determines_program hlex hlex' hp hq hfloats hfloats' (htext.trans htext'.symm)⟩

end Llama.Proofs
