import Llama.Proofs.ScopeSimulation

/-!
# Scopes are balanced

A walk through an expression leaves the stack of scopes as it finds it, whatever it opens, hides and
closes on the way. A let group leaves one more scope, which holds the first binding of each of its
names, and at the end of a program only the library is left.
-/

namespace Llama.Proofs

open Analyzer

/-- Of symbols with the same name the first one is kept. -/
def firstOfEachName (symbols : List Symbol) : List Symbol :=
  symbols.eraseDupsBy fun a b => a.name == b.name

/-- The symbols whose name is not taken in a scope. -/
def newTo (scope : Env) (symbols : List Symbol) : List Symbol :=
  symbols.filter fun symbol => (Env.lookup? scope symbol.name).isNone

/-- Adds a symbol to a scope unless its name is taken. -/
def addNew (scope : Env) (symbol : Symbol) : Env :=
  if (Env.lookup? scope symbol.name).isNone then scope ++ [symbol] else scope

lemma newTo_nil (symbols : List Symbol) : newTo [] symbols = symbols :=
  List.filter_eq_self.mpr fun _ _ => rfl

lemma newTo_snoc (scope : Env) (symbol : Symbol) (symbols : List Symbol) :
    newTo (scope ++ [symbol]) symbols =
      (newTo scope symbols).filter fun b => decide ((b.name == symbol.name) = false) := by
  unfold newTo Env.lookup?
  rw [List.filter_filter]
  refine List.filter_congr fun b _ => ?_
  rw [List.find?_append]
  cases scope.find? fun a => a.name == b.name with
  | some previous => simp
  | none =>
    by_cases hname : symbol.name = b.name
    · simp [hname]
    · simp [hname, Ne.symm hname]

lemma declare_fst (scope : Env) (symbol : Symbol) (w : Walk) :
    (declare scope symbol w).1 = addNew scope symbol := by
  unfold declare addNew
  cases Env.lookup? scope symbol.name <;> rfl

lemma declare_inference (scope : Env) (symbol : Symbol) (w : Walk) :
    (declare scope symbol w).2.inference = w.inference := by
  unfold declare
  cases Env.lookup? scope symbol.name <;> rfl

/-- Adding a symbol and then others is adding them all. -/
lemma addNew_append_firstOfEachName (scope : Env) (symbol : Symbol) (symbols : List Symbol) :
    addNew scope symbol ++ firstOfEachName (newTo (addNew scope symbol) symbols) =
      scope ++ firstOfEachName (newTo scope (symbol :: symbols)) := by
  have hcons : newTo scope (symbol :: symbols) =
      if (Env.lookup? scope symbol.name).isNone then symbol :: newTo scope symbols
      else newTo scope symbols := List.filter_cons
  rw [addNew, hcons]
  split
  · rw [newTo_snoc, List.append_assoc]
    unfold firstOfEachName
    rw [List.eraseDupsBy_cons]
    rfl
  · rfl

/-- Of symbols that are added one after the other the first of each name stays. -/
lemma foldl_addNew (scope : Env) (symbols : List Symbol) :
    symbols.foldl addNew scope = scope ++ firstOfEachName (newTo scope symbols) := by
  induction symbols generalizing scope with
  | nil => exact (List.append_nil _).symm
  | cons symbol symbols ih => rw [List.foldl_cons, ih, addNew_append_firstOfEachName]

lemma foldl_addNew_nil (symbols : List Symbol) :
    symbols.foldl addNew [] = firstOfEachName symbols := by
  rw [foldl_addNew, newTo_nil, List.nil_append]

/-- What a definition binds its name to once inference has reached `i`. -/
def bindingIn (i : Inference) (d : Def) : Symbol :=
  ⟨d.name, d.symbolKind, d.declaredType?, i.primary? d.site.id, d.site.span⟩

/-- The names of definitions are added to a scope in their order. The placeholders are still the
primary ones of the definitions later on. -/
lemma declareDefs_scope (ds : List Def) (scope : Env) (w : Walk) {j : Inference}
    (hj : Grows (declareDefs ds scope w).2.inference j) :
    (declareDefs ds scope w).1 = (ds.map (bindingIn j)).foldl addNew scope ∧
      ∀ d ∈ ds, (j.primary? d.site.id).isSome := by
  induction ds generalizing scope w with
  | nil => exact ⟨rfl, fun _ h => absurd h List.not_mem_nil⟩
  | cons d ds ih =>
    have hrun : declareDefs (d :: ds) scope w =
        declareDefs ds (declare scope ⟨d.name, d.symbolKind, d.declaredType?,
          some (d.temp w).1, d.site.span⟩ (d.temp w).2).1
          (declare scope ⟨d.name, d.symbolKind, d.declaredType?,
            some (d.temp w).1, d.site.span⟩ (d.temp w).2).2 := rfl
    rw [hrun] at hj ⊢
    have hgrows := ((plain_declareDefs ds _).extends_run _).inference.trans hj
    rw [declare_inference] at hgrows
    have hprimary : j.primary? d.site.id = some (d.temp w).1 :=
      hgrows.primary? (tempFor_primary? w.inference d.site.id d.declaredType?)
    obtain ⟨hscope, hrest⟩ := ih _ _ hj
    refine ⟨?_, List.forall_mem_cons.mpr ⟨by rw [hprimary]; rfl, hrest⟩⟩
    rw [hscope, declare_fst, List.map_cons, List.foldl_cons, bindingIn, hprimary]

lemma elaborateGroup_scope (g : LetGroup) (env : Env) (w : Walk) :
    (elaborateGroup g env w).1 =
        firstOfEachName (g.defs.map (bindingIn (elaborateGroup g env w).2.inference)) ∧
      ∀ d ∈ g.defs, ((elaborateGroup g env w).2.inference.primary? d.site.id).isSome := by
  obtain ⟨site, isRec, ds⟩ := g
  cases isRec with
  | true =>
    have hdefs := plain_defs (fun d hd => tree_plain.defs ds d hd) ((declareDefs ds [] w).1 ++ env)
    have hscope := declareDefs_scope ds [] w (hdefs.extends_run (declareDefs ds [] w).2).inference
    rwa [foldl_addNew_nil] at hscope
  | false =>
    have hscope := declareDefs_scope ds [] (elaborateDefs ds env w).2 (Grows.refl _)
    rwa [foldl_addNew_nil] at hscope

/-- The names that can be seen from a stack, innermost first. -/
def seenFrom (s : SymbolTable) : Env := (s.scopes.filter Scope.visible).flatMap Scope.symbols

lemma presents_seenFrom (s : SymbolTable) : Presents s (seenFrom s) := by
  intro name
  unfold SymbolTable.lookup? seenFrom Env.lookup?
  rw [List.find?_flatMap]
  rfl

lemma exprAnalyze_scopes (e : Expr) (w : Walk) : (e.analyze w).2.scopes = w.scopes :=
  congrArg (fun r => r.2.scopes) (tree_runs.expr e w.scopes _ (presents_seenFrom _) w)

lemma groupAnalyze_run (g : LetGroup) (w : Walk) :
    g.analyze w = ((), { (elaborateGroup g (seenFrom w.scopes) w).2 with
      scopes := atop w.scopes (elaborateGroup g (seenFrom w.scopes) w).1 true }) :=
  runs_group (tree_runs.group g) (presents_seenFrom _) w

/-- The definitions of a program leave one more scope open for each let group, and closing these
brings back the stack from before. -/
lemma definitionsAnalyze_scopes (ds : List Definition) (w : Walk) :
    (ds.forM Definition.analyze w).2.scopes.depth = w.scopes.depth + (letGroupsOf ds).length ∧
      Nat.repeat SymbolTable.closeScope (letGroupsOf ds).length
        (ds.forM Definition.analyze w).2.scopes = w.scopes := by
  induction ds generalizing w with
  | nil => exact ⟨rfl, rfl⟩
  | cons d ds ih =>
    have hrun : (d :: ds).forM Definition.analyze w =
        ds.forM Definition.analyze (d.analyze w).2 := rfl
    rw [hrun]
    obtain ⟨hdepth, hclosed⟩ := ih (d.analyze w).2
    cases d with
    | lets group =>
      have hcons : letGroupsOf (.lets group :: ds) = group :: letGroupsOf ds := rfl
      have hscopes : (Definition.analyze (.lets group) w).2.scopes =
          atop w.scopes (elaborateGroup group (seenFrom w.scopes) w).1 true :=
        congrArg (fun r => r.2.scopes) (groupAnalyze_run group w)
      rw [hscopes] at hdepth hclosed
      rw [hcons, List.length_cons]
      refine ⟨?_, ?_⟩
      · rw [hdepth]
        change w.scopes.inner.length + 1 + 1 + _ = w.scopes.inner.length + 1 + _
        omega
      · rw [Nat.repeat, hclosed]
        rfl
    | types group =>
      have hscopes : (Definition.analyze (.types group) w).2.scopes = w.scopes :=
        congrArg (fun r => r.2.scopes) (typeGroup_run group w)
      rw [hscopes] at hdepth hclosed
      exact ⟨hdepth, hclosed⟩

/-- Walks are balanced. An expression leaves every stack of scopes exactly as it is. A let group
leaves every stack with one visible scope on top, which holds the first binding of each name of the
group with its placeholder. The definitions of a program leave one open scope for each let group
above the untouched library, and when these are closed only the library is left. -/
theorem walk_scope_balanced :
    (∀ (e : Expr) (w : Walk), (e.analyze w).2.scopes = w.scopes) ∧
    (∀ (g : LetGroup) (w : Walk),
      (g.analyze w).2.scopes =
          atop w.scopes (firstOfEachName (g.defs.map (bindingIn (g.analyze w).2.inference))) true ∧
        ∀ d ∈ g.defs, (bindingIn (g.analyze w).2.inference d).temp.isSome) ∧
    ∀ (program : Program) (types : TypeTable) (firstTag : Tag),
      (program.walk (Walk.initial types firstTag)).2.scopes = SymbolTable.initial ∧
        (program.definitions.forM Definition.analyze (Walk.initial types firstTag)).2.scopes.depth =
          1 + program.letGroups.length ∧
        Nat.repeat SymbolTable.closeScope program.letGroups.length
          (program.definitions.forM Definition.analyze (Walk.initial types firstTag)).2.scopes =
            SymbolTable.initial := by
  refine ⟨exprAnalyze_scopes, fun g w => ?_, fun program types firstTag => ⟨?_, ?_⟩⟩
  · obtain ⟨hscope, htemps⟩ := elaborateGroup_scope g (seenFrom w.scopes) w
    rw [groupAnalyze_run]
    exact ⟨congrArg (fun symbols => atop w.scopes symbols true) hscope, htemps⟩
  · rw [walk_initial]
  · exact definitionsAnalyze_scopes program.definitions (Walk.initial types firstTag)

end Llama.Proofs
