import Llama.Proofs.ExprReading

/-!
# Reading whole programs

Type groups are read back like let groups, and a program definition by definition. The main
result is that parsing undoes unparsing: whatever the places of its tokens, the concrete syntax
of a program is read without a syntax error as the same program, up to sites.
-/

namespace Llama.Proofs

open Llama.Parser Llama.Grammar

variable {texts : LiteralTexts}

lemma wrap_tyWords_first (ty : Ty) :
    ∃ w ws, wrap (tyIsAtom ty) (tyWords ty) = w :: ws ∧ startsType w.1 = true := by
  cases ty <;> exact ⟨_, _, rfl, rfl⟩

lemma endsType_of_startsType {kind : TokenKind} (h : startsType kind = true) :
    endsType (some kind) := by
  revert h
  cases kind <;> decide

/-- What follows a constructor is no argument of it. -/
def endsConstructor (k : Option TokenKind) : Prop :=
  endsType k ∧ k.any startsType = false ∧ k ≠ some .kwOf

instance (k : Option TokenKind) : Decidable (endsConstructor k) :=
  inferInstanceAs (Decidable (_ ∧ _))

lemma reads_constructorDef {c : ConstructorDef} {n : Nat} (hw : ∀ ty ∈ c.args, tyWritable ty)
    (hn : ∀ ty ∈ c.args, wrapLevels (tyIsAtom ty) (tyLevels ty) + 1 ≤ n) :
    Reads (constructorDef (deeper n)) (constructorWords c) endsConstructor
      (fun c' => bareConstructor c' = bareConstructor c) := by
  obtain ⟨site, name, args⟩ := c
  unfold constructorDef constructorWords
  refine reads_conid_bind fun _ => ?_
  cases args with
  | nil =>
    refine reads_isAt_other_bind (fun k hk => hk.2.2) ?_
    exact reads_newSiteFrom_bind fun _ => reads_pure rfl
  | cons first rest =>
    have harg : ∀ ty ∈ first :: rest, Reads (deeper n).ty (wrap (tyIsAtom ty) (tyWords ty))
        endsType (fun t => t = ty) := fun ty hty =>
      reads_deeper_ty_wrapped (typeReads_of_writable (hw ty hty)) (hw ty hty) (hn ty hty)
    have hrest : Reads (many startsType (deeper n).ty)
        (rest.flatMap fun ty => wrap (tyIsAtom ty) (tyWords ty)) endsConstructor
        (fun ts => ts.map id = rest.map id) := by
      refine reads_many endsType rest (fun ty hty => harg ty (by simp [hty])) (fun ty _ => ?_)
        (fun k hk => ⟨hk.1, hk.2.1⟩)
      · obtain ⟨w, ws, hwords, hstarts⟩ := wrap_tyWords_first ty
        exact ⟨w, ws, hwords, hstarts, endsType_of_startsType hstarts⟩
    refine reads_isAt_bind (reads_expect_bind fun _ _ => ?_)
    rw [List.flatMap_cons]
    refine reads_bind (harg first (by simp)) ?_ (fun k hk => ?_)
    · rintro _ rfl
      refine reads_bind_last hrest (fun ts hts => reads_newSiteFrom_bind fun _ => reads_pure ?_)
      rw [List.map_id, List.map_id] at hts
      rw [hts]
      rfl
    · cases rest with
      | nil => exact hk.1
      | cons ty rest =>
        obtain ⟨w, ws, hwords, hstarts⟩ := wrap_tyWords_first ty
        rw [List.flatMap_cons, hwords]
        exact endsType_of_startsType hstarts

/-- What follows a type definition is no constructor of it. -/
def endsTypeDef (k : Option TokenKind) : Prop := endsConstructor k ∧ k ≠ some .pipe

instance (k : Option TokenKind) : Decidable (endsTypeDef k) :=
  inferInstanceAs (Decidable (_ ∧ _))

lemma reads_typeName (name : String) :
    Reads typeName [(typeNameKind name, name)] (fun _ => True) (fun r => r.1 = name) := by
  unfold typeName
  have hkind : [TokenKind.genid, .kwInt, .kwBool, .kwChar, .kwFloat, .kwUnit].contains
      (typeNameKind name) = true := by
    unfold typeNameKind
    cases hfind : [TokenKind.kwInt, .kwBool, .kwChar, .kwFloat, .kwUnit].find?
        (·.text == some name) with
    | none => rfl
    | some kind =>
      have hmem := List.mem_of_find?_eq_some hfind
      rw [List.contains_iff_mem]
      exact List.mem_cons_of_mem _ hmem
  refine reads_bind (reads_tokenWhere hkind) (fun token htoken => reads_pure ?_)
    (fun _ _ => trivial)
  exact congrArg Prod.snd htoken

lemma reads_typeDef {d : TypeDef} {n : Nat} (hne : d.constructors ≠ [])
    (hw : ∀ c ∈ d.constructors, ∀ ty ∈ c.args, tyWritable ty)
    (hn : ∀ c ∈ d.constructors, ∀ ty ∈ c.args, wrapLevels (tyIsAtom ty) (tyLevels ty) + 1 ≤ n) :
    Reads (typeDef (deeper n)) (typeDefWords d) endsTypeDef
      (fun d' => bareTypeDef d' = bareTypeDef d) := by
  obtain ⟨site, name, constructors⟩ := d
  unfold typeDef typeDefWords
  refine reads_bind (reads_typeName name) ?_ (fun _ _ => trivial)
  rintro ⟨_, start⟩ rfl
  refine reads_expect_bind fun _ _ => ?_
  have hconstructors : Reads (separated .pipe (constructorDef (deeper n)))
      (separatedWords (terminal .pipe) (constructors.map constructorWords)) endsTypeDef
      (fun cs => cs.map bareConstructor = constructors.map bareConstructor) := by
    refine reads_separated endsConstructor constructors hne (fun c hc => ?_) (by decide)
      (fun k hk => hk)
    exact reads_constructorDef (hw c hc) (hn c hc)
  refine reads_bind_last hconstructors (fun cs hcs => ?_)
  refine reads_newSiteFrom_bind fun _ => reads_pure ?_
  simp only [bareTypeDef, hcs]

/-- Entering types reports problems with them, but no syntax error. -/
lemma reads_enterTypes_bind {β : Type} {f : Unit → Parser β} {g : TypeGroup} {ws : List Word}
    {follow : Option TokenKind → Prop} {post : β → Prop} (h : Reads (f ()) ws follow post) :
    Reads (enterTypes g >>= f) ws follow post := by
  intro tokens s rest hrest hk
  let entered : ParserState := { s with
    types := (s.types.enter g).1
    reports := s.reports ++ (s.types.enter g).2.map .badTypeDefinition }
  have hrun : enterTypes g tokens s = (.ok (), entered) := rfl
  have hentered : reportedSyntax entered = reportedSyntax s := by
    have hnone : ((s.types.enter g).2.map Report.badTypeDefinition).filterMap
        Report.syntaxError? = [] := by
      rw [List.filterMap_eq_nil_iff]
      intro r hr
      obtain ⟨e, -, rfl⟩ := List.mem_map.mp hr
      rfl
    simp only [reportedSyntax, entered, List.filterMap_append, hnone, List.append_nil]
  obtain ⟨b, s', hrun', hb, hahead, herrors⟩ := h tokens entered rest hrest hk
  exact ⟨b, s', by rw [bind_run_ok hrun, hrun'], hb, hahead, herrors.trans hentered⟩

/-- What follows a definition of a program: another one, or nothing. -/
def endsDefinition (k : Option TokenKind) : Prop :=
  k = none ∨ k = some .kwLet ∨ k = some .kwType

lemma reads_typeGroup {g : TypeGroup} {n : Nat} (hw : typeGroupWritable g)
    (hn : typeGroupLevels g ≤ n) :
    Reads (typeGroup (deeper n)) (typeGroupWords g) endsDefinition
      (fun g' => bareTypeGroup g' = bareTypeGroup g) := by
  obtain ⟨site, defs⟩ := g
  rw [typeGroupLevels, foldr_max_le] at hn
  unfold typeGroup typeGroupWords
  refine reads_expect_bind fun _ _ => ?_
  have hdefs : Reads (separated .kwAnd (typeDef (deeper n)))
      (separatedWords (terminal .kwAnd) (defs.map typeDefWords)) endsDefinition
      (fun ds => ds.map bareTypeDef = defs.map bareTypeDef) := by
    refine reads_separated endsTypeDef defs hw.1 (fun d hd => ?_) (by decide) ?_
    · refine reads_typeDef (hw.2 d hd).1 (hw.2 d hd).2 (fun c hc ty hty => hn _ ?_)
      refine List.mem_flatMap.mpr ⟨c, List.mem_flatMap.mpr ⟨d, hd, hc⟩, ?_⟩
      exact List.mem_map_of_mem hty
    · rintro _ (rfl | rfl | rfl) <;> decide
  refine reads_bind_last hdefs (fun ds hds => reads_newSiteFrom_bind fun _ => ?_)
  refine reads_enterTypes_bind (reads_pure ?_)
  simp only [bareTypeGroup, hds]

lemma definitionWords_first (texts : LiteralTexts) (d : Definition) :
    ∃ w ws, definitionWords texts d = w :: ws ∧ endsDefinition (some w.1) := by
  cases d with
  | lets group =>
    obtain ⟨site, isRec, defs⟩ := group
    exact ⟨_, _, by rw [definitionWords, groupWords], Or.inr (Or.inl rfl)⟩
  | types group => exact ⟨_, _, rfl, Or.inr (Or.inr rfl)⟩

lemma reads_definition {d : Definition} {n : Nat} (hw : definitionWritable texts d)
    (hn : definitionLevels d ≤ n) :
    Reads (definition (deeper n)) (definitionWords texts d) endsDefinition
      (fun d' => bareDefinition d' = bareDefinition d) := by
  unfold definition
  cases d with
  | lets group =>
    have hgroup := groupReads_of_writable hw hn
    have hlet : ∃ ws, groupWords texts group = terminal .kwLet :: ws := by
      obtain ⟨site, isRec, defs⟩ := group
      exact ⟨_, by rw [groupWords]⟩
    obtain ⟨ws, hws⟩ := hlet
    rw [definitionWords]
    rw [hws] at hgroup ⊢
    refine reads_peekKind_bind (reads_bind_last (hgroup.mono ?_ fun _ h => h)
      (fun g hg => reads_pure ?_))
    · rintro _ (rfl | rfl | rfl) <;> decide
    · rw [bareDefinition, bareDefinition, hg]
  | types group =>
    refine reads_peekKind_bind (reads_bind_last (reads_typeGroup hw hn)
      (fun g hg => reads_pure ?_))
    rw [bareDefinition, bareDefinition, hg]

/-- One round of reading definitions while there are tokens left. -/
lemma definitionsUpTo_succ (d : Deeper) (n : Nat) {tokens : Array Token} {s : ParserState}
    (hsome : ¬tokens.size - s.index = 0) :
    definitionsUpTo d (n + 1) tokens s =
      match definition d tokens { s with furthest := none } with
      | (.ok first, s₁) => (do return first :: (← definitionsUpTo d n) : Parser _) tokens s₁
      | (.error e, s₁) => (do recover s.index e; definitionsUpTo d n : Parser _) tokens s₁ := by
  have hclear : clearFurthest tokens s = (.ok (), { s with furthest := none }) := rfl
  have hindex : index tokens { s with furthest := none } =
    (.ok s.index, { s with furthest := none }) := rfl
  rw [definitionsUpTo, bind_run_ok (remaining_run _ _), if_neg hsome, bind_run_ok hclear,
    bind_run_ok hindex]
  cases hrun : definition d tokens { s with furthest := none } with
  | mk result s₁ =>
    rw [bind_run_ok (attempt_run hrun)]
    cases result <;> rfl

/-- Definitions are read to the end of the input. The bound on their number is never reached,
since a definition has at least one word. -/
lemma definitionsUpTo_run (ds : List Definition) (tokens : Array Token) (m n : Nat)
    (s : ParserState) (hw : ∀ d ∈ ds, definitionWritable texts d)
    (hlevels : ∀ d ∈ ds, definitionLevels d ≤ m)
    (hahead : ahead tokens s = ds.flatMap (definitionWords texts))
    (hn : (ahead tokens s).length ≤ n) :
    ∃ ds' s', definitionsUpTo (deeper m) n tokens s = (.ok ds', s') ∧
      ds'.map bareDefinition = ds.map bareDefinition ∧
      reportedSyntax s' = reportedSyntax s := by
  induction ds generalizing n s with
  | nil =>
    refine ⟨[], s, ?_, rfl, rfl⟩
    cases n with
    | zero => rfl
    | succ n =>
      have hremaining : remaining tokens s = (.ok 0, s) := by
        have hlen := length_ahead tokens s
        rw [hahead, List.flatMap_nil, List.length_nil] at hlen
        rw [hlen]
        rfl
      rw [definitionsUpTo, bind_run_ok hremaining]
      rfl
  | cons d ds ih =>
    obtain ⟨w, ws, hwords, -⟩ := definitionWords_first texts d
    rw [List.flatMap_cons] at hahead
    have hlen := length_ahead tokens s
    have hpos : 0 < (ahead tokens s).length := by
      rw [hahead, hwords]
      exact Nat.succ_pos _
    obtain ⟨k, rfl⟩ : ∃ k, n = k + 1 := ⟨n - 1, by omega⟩
    have hfollow : endsDefinition (firstKind (ds.flatMap (definitionWords texts)) none) := by
      cases ds with
      | nil => exact Or.inl rfl
      | cons d' ds =>
        obtain ⟨w', ws', hwords', hends⟩ := definitionWords_first texts d'
        rw [List.flatMap_cons, hwords']
        exact hends
    have hcleared : ahead tokens { s with furthest := none } =
        definitionWords texts d ++ ds.flatMap (definitionWords texts) := hahead
    obtain ⟨d', s₁, hrun, hd, hahead', herrors⟩ := reads_definition (hw d (by simp))
      (hlevels d (by simp)) tokens { s with furthest := none } _ hcleared hfollow
    have hshorter : (ahead tokens s₁).length < (ahead tokens s).length := by
      rw [hahead, hahead', hwords]
      simp only [List.cons_append, List.length_cons, List.length_append]
      omega
    obtain ⟨ds', s₂, hrun', hds, herrors'⟩ := ih k s₁ (fun x hx => hw x (by simp [hx]))
      (fun x hx => hlevels x (by simp [hx])) hahead' (by omega)
    refine ⟨d' :: ds', s₂, ?_, ?_, herrors'.trans herrors⟩
    · have hsome : ¬tokens.size - s.index = 0 := by omega
      rw [definitionsUpTo_succ (deeper m) k hsome, hrun]
      simp only []
      rw [bind_run_ok hrun']
      rfl
    · rw [List.map_cons, List.map_cons, hd, hds]

/-- Parsing undoes unparsing: whatever literals are chosen for the constants and wherever the
tokens stand, a program that the concrete syntax can express is read back without a syntax error,
up to the numbers and spans of its nodes. -/
theorem parse_unparse (texts : LiteralTexts) (program : Program)
    (hw : programWritable texts program) (hlevels : programLevels program ≤ maxNesting)
    (tokens : List Token) (htokens : tokens.map word = unparse texts program) :
    (parse tokens).syntaxErrors = [] ∧
      ∃ p, (parse tokens).program = some p ∧
        p.definitions.map bareDefinition = program.definitions.map bareDefinition := by
  rw [programLevels, foldr_max_le] at hlevels
  have hahead : ahead tokens.toArray ParserState.initial =
      program.definitions.flatMap (definitionWords texts) := by
    rw [← unparse, ← htokens]
    rfl
  obtain ⟨ds, s, hrun, hds, herrors⟩ := definitionsUpTo_run program.definitions tokens.toArray
    maxNesting (tokens.toArray.size - ParserState.initial.index) ParserState.initial hw
    (fun d hd => hlevels _ (List.mem_map_of_mem hd)) hahead
    (Nat.le_of_eq (length_ahead _ _))
  have hdefinitions : Parser.run (definitions outermost) tokens.toArray ParserState.initial =
      (.ok ds, s) := hrun
  have hnone : s.reports.filterMap Report.syntaxError? = [] := herrors
  have hclean : (s.reports.any fun r => r.syntaxError?.isSome) = false := by
    rw [List.any_eq_false]
    intro r hr
    rw [List.filterMap_eq_nil_iff.mp hnone r hr]
    decide
  unfold Parsed.syntaxErrors parse
  rw [hdefinitions]
  refine ⟨hnone, ⟨ds, s.nextId⟩, ?_, hds⟩
  simp only [hclean, Bool.false_eq_true, if_false]

/-- Literals for the constants of `treeProgram`. -/
def treeTexts : LiteralTexts where
  plain := fun _ => "42"
  negated := fun _ => "42"

/-- A type of trees, and a function on them that matches a negative constant and computes with
the least integer. -/
def treeProgram : Program where
  definitions :=
    [.types ⟨default, [⟨default, "tree", [⟨default, "Leaf", []⟩,
      ⟨default, "Node", [.user "tree", .array (.ref .int) 2]⟩]⟩]⟩,
     .lets (.mk default true
      [.function default "f" [⟨default, "x", some .int⟩] none
        (.matchWith default (.var default "x")
          [.mk default (.const default (.int (-42)))
            (.binary default .sub (.const default (.int leastInt)) (.const default (.int 42))),
           .mk default (.constr default "Node" [.constr default "Node" [.var default "l"]])
            (.call default "f" [.unary default .minus (.var default "x"),
              .const default .unit])]),
       .mutableArray default "a" [.element default "b" [.const default (.int 42)]] none])]
  nodeCount := 0

theorem parse_unparse_treeProgram :
    programWritable treeTexts treeProgram ∧ programLevels treeProgram ≤ maxNesting ∧
      ∃ tokens p, tokens.map word = unparse treeTexts treeProgram ∧
        (parse tokens).syntaxErrors = [] ∧ (parse tokens).program = some p ∧
        p.definitions.map bareDefinition = treeProgram.definitions.map bareDefinition := by
  have hplain : Decodes "42" (.int 42) := rfl
  have hnegated : Decodes "-42" (.int (-42)) := rfl
  have hbuiltin : Ty.builtin? "tree" = none := by decide
  have hw : programWritable treeTexts treeProgram := by
    simp [programWritable, treeProgram, treeTexts, definitionWritable, typeGroupWritable,
      annotationWritable, constWritable, patternConstWritable, hplain, hnegated, hbuiltin]
  have hlevels : programLevels treeProgram ≤ maxNesting := by decide
  let tokens := (unparse treeTexts treeProgram).map fun w => Token.made w.1 w.2 1 1
  have htokens : tokens.map word = unparse treeTexts treeProgram := by
    rw [List.map_map]
    exact List.map_id _
  obtain ⟨herrors, p, hp, hbare⟩ := parse_unparse treeTexts treeProgram hw hlevels tokens htokens
  exact ⟨hw, hlevels, tokens, p, htokens, herrors, hp, hbare⟩

end Llama.Proofs
