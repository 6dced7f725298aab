import Llama.Proofs.PostOrder

/-!
# Heights of trees

The height of a tree is the number of nodes on the longest way down from its root. Its nesting is
the number of levels that have to be entered to read it. Most of what lies below a node is read
one level deeper, but the left operand of an operator, an argument without parentheses and what
stands before `ref` are read at the level of the whole. So the nesting alone does not bound the
height: it does once the chains of operators and of `ref` are bounded that are read at one level.
-/

namespace Llama.Proofs

variable {c n : Node} {e : Expr} {k : Nat} {p : Pattern} {roots listed : List Node}

/-- The height of a type. -/
def tyHeight : Ty → Nat
  | .array element _ => tyHeight element + 1
  | .func source target => max (tyHeight source) (tyHeight target) + 1
  | .ref inner => tyHeight inner + 1
  | _ => 1

/-- The number of `ref` that a type ends with. -/
def tyRefs : Ty → Nat
  | .ref inner => tyRefs inner + 1
  | _ => 0

/-- The largest number of `ref` one after the other anywhere in a type. -/
def tyLongestRefs : Ty → Nat
  | .array element _ => tyLongestRefs element
  | .func source target => max (tyLongestRefs source) (tyLongestRefs target)
  | .ref inner => max (tyRefs inner + 1) (tyLongestRefs inner)
  | _ => 0

/-- The levels that are entered to read a type. As an operand, a function type stands in
parentheses. -/
def tyNesting : Ty → Nat
  | .array element _ =>
    (if element.isFunc then tyNesting element + 1 else tyNesting element) + 1
  | .func source target =>
    max (if source.isFunc then tyNesting source + 1 else tyNesting source) (tyNesting target + 1)
  | .ref inner => if inner.isFunc then tyNesting inner + 1 else tyNesting inner
  | _ => 1

/-- The levels that are entered to read a type as an operand. -/
def operandNesting (ty : Ty) : Nat :=
  if ty.isFunc then tyNesting ty + 1 else tyNesting ty

lemma operandNesting_array (element : Ty) (dims : Nat) :
    operandNesting (.array element dims) = operandNesting element + 1 := rfl

lemma operandNesting_ref (inner : Ty) : operandNesting (.ref inner) = operandNesting inner := rfl

lemma operandNesting_func (source target : Ty) :
    operandNesting (.func source target) =
      max (operandNesting source) (tyNesting target + 1) + 1 := rfl

lemma tyNesting_le_operand (ty : Ty) : tyNesting ty ≤ operandNesting ty := by
  unfold operandNesting
  split <;> omega

lemma operandNesting_le_succ (ty : Ty) : operandNesting ty ≤ tyNesting ty + 1 := by
  unfold operandNesting
  split <;> omega

lemma tyRefs_le_longest (ty : Ty) : tyRefs ty ≤ tyLongestRefs ty := by
  cases ty with
  | ref inner => exact Nat.le_max_left _ _
  | _ => exact Nat.zero_le _

/-- From level to level a type grows by a chain of `ref` and one node more. The chain at its end
is not complete yet. -/
lemma tyHeight_le_operand {refs : Nat} (ty : Ty) (hrefs : tyLongestRefs ty ≤ refs) :
    tyHeight ty + refs ≤ (refs + 1) * operandNesting ty + tyRefs ty := by
  induction ty with
  | array element dims ih =>
    have helement := ih hrefs
    have hend : tyRefs element ≤ refs := Nat.le_trans (tyRefs_le_longest element) hrefs
    rw [tyHeight, operandNesting_array, Nat.mul_succ]
    omega
  | func source target ihs iht =>
    rw [tyLongestRefs, Nat.max_le] at hrefs
    have hsource := ihs hrefs.1
    have htarget := iht hrefs.2
    have hends := Nat.le_trans (tyRefs_le_longest source) hrefs.1
    have hendt := Nat.le_trans (tyRefs_le_longest target) hrefs.2
    have hleft := Nat.mul_le_mul_left (refs + 1)
      (Nat.le_max_left (operandNesting source) (tyNesting target + 1))
    have hright := Nat.mul_le_mul_left (refs + 1) (Nat.le_trans (operandNesting_le_succ target)
      (Nat.le_max_right (operandNesting source) (tyNesting target + 1)))
    rw [tyHeight, operandNesting_func, Nat.mul_succ]
    omega
  | ref inner ih =>
    rw [tyLongestRefs, Nat.max_le] at hrefs
    have hinner := ih hrefs.2
    rw [tyHeight, operandNesting_ref, tyRefs]
    omega
  | _ => simp [tyHeight, operandNesting, Ty.isFunc, tyNesting, tyRefs, Nat.add_comm]

lemma tyHeight_le_nesting (ty : Ty) :
    tyHeight ty ≤ (tyLongestRefs ty + 1) * tyNesting ty + 1 := by
  have hoperand := tyHeight_le_operand ty (Nat.le_refl _)
  have hend := tyRefs_le_longest ty
  unfold operandNesting at hoperand
  split at hoperand
  next hfunc =>
    have hnone : tyRefs ty = 0 := by
      cases ty <;> first | rfl | cases hfunc
    rw [Nat.mul_succ] at hoperand
    omega
  next => omega

lemma sizeOf_le_of_mem_map {α : Type} [SizeOf α] {node : α → Node} {l : List α}
    (hsize : ∀ a, sizeOf (node a) = 1 + sizeOf a) (h : c ∈ l.map node) : sizeOf c ≤ sizeOf l := by
  obtain ⟨a, ha, rfl⟩ := List.mem_map.mp h
  have hlt := List.sizeOf_lt_of_mem ha
  rw [hsize]
  omega

lemma sizeOf_lt_of_mem_exprChildren (h : c ∈ Node.exprChildren e) : sizeOf c < 1 + sizeOf e := by
  cases e with
  | construct site name args =>
    have hle := sizeOf_le_of_mem_map (fun _ => rfl) h
    simp only [Expr.construct.sizeOf_spec]
    omega
  | element site name indices =>
    have hle := sizeOf_le_of_mem_map (fun _ => rfl) h
    simp only [Expr.element.sizeOf_spec]
    omega
  | call site name args =>
    have hle := sizeOf_le_of_mem_map (fun _ => rfl) h
    simp only [Expr.call.sizeOf_spec]
    omega
  | matchWith site scrutinee clauses =>
    rcases List.mem_cons.mp h with rfl | hclause
    · simp only [Node.expr.sizeOf_spec, Expr.matchWith.sizeOf_spec]
      omega
    · have hle := sizeOf_le_of_mem_map (fun _ => rfl) hclause
      simp only [Expr.matchWith.sizeOf_spec]
      omega
  | const | constr | var | dim | new => exact absurd h List.not_mem_nil
  | _ =>
    simp only [Node.exprChildren, List.mem_cons, List.not_mem_nil, or_false] at h
    rcases h with rfl | rfl | rfl <;> simp <;> omega

/-- What lies below a node is smaller. -/
lemma sizeOf_lt_of_mem_children (h : c ∈ n.children) : sizeOf c < sizeOf n := by
  cases n with
  | expr e => exact sizeOf_lt_of_mem_exprChildren h
  | definition d =>
    cases d with
    | function site name params result body =>
      rcases List.mem_append.mp h with hparam | hbody
      · have hle := sizeOf_le_of_mem_map (fun _ => rfl) hparam
        simp only [Node.definition.sizeOf_spec, Def.function.sizeOf_spec]
        omega
      · cases List.mem_singleton.mp hbody
        simp only [Node.definition.sizeOf_spec, Def.function.sizeOf_spec, Node.expr.sizeOf_spec]
        omega
    | constant site name ty body =>
      cases List.mem_singleton.mp h
      simp only [Node.definition.sizeOf_spec, Def.constant.sizeOf_spec, Node.expr.sizeOf_spec]
      omega
    | mutableVar site name ty => exact absurd h List.not_mem_nil
    | mutableArray site name dims ty =>
      have hle := sizeOf_le_of_mem_map (fun _ => rfl) h
      simp only [Node.definition.sizeOf_spec, Def.mutableArray.sizeOf_spec]
      omega
  | letGroup g =>
    obtain ⟨site, isRec, defs⟩ := g
    have hle := sizeOf_le_of_mem_map (fun _ => rfl) h
    simp only [Node.letGroup.sizeOf_spec, LetGroup.mk.sizeOf_spec, LetGroup.defs] at hle ⊢
    omega
  | clause clause =>
    obtain ⟨site, pattern, body⟩ := clause
    simp only [Node.children, Clause.pattern, Clause.body, List.mem_cons, List.not_mem_nil,
      or_false] at h
    rcases h with rfl | rfl
    · simp only [Node.pattern.sizeOf_spec, Node.clause.sizeOf_spec, Clause.mk.sizeOf_spec]
      omega
    · simp only [Node.expr.sizeOf_spec, Node.clause.sizeOf_spec, Clause.mk.sizeOf_spec]
      omega
  | pattern p =>
    cases p with
    | constr site name args =>
      have hle := sizeOf_le_of_mem_map (fun _ => rfl) h
      simp only [Node.pattern.sizeOf_spec, Pattern.constr.sizeOf_spec]
      omega
    | const | var => exact absurd h List.not_mem_nil
  | typeGroup g =>
    obtain ⟨site, defs⟩ := g
    have hle := sizeOf_le_of_mem_map (fun _ => rfl) h
    simp only [Node.typeGroup.sizeOf_spec, TypeGroup.mk.sizeOf_spec] at hle ⊢
    omega
  | typeDef d =>
    obtain ⟨site, name, constructors⟩ := d
    have hle := sizeOf_le_of_mem_map (fun _ => rfl) h
    simp only [Node.typeDef.sizeOf_spec, TypeDef.mk.sizeOf_spec] at hle ⊢
    omega
  | param | constructor => exact absurd h List.not_mem_nil

/-- The number of nodes on the longest way down from a node. -/
def nodeHeight (n : Node) : Nat :=
  (n.children.attach.map fun c => nodeHeight c.1).foldr max 0 + 1
termination_by sizeOf n
decreasing_by exact sizeOf_lt_of_mem_children c.2

/-- Whether an expression can stand as an argument without parentheses. -/
def isSimple : Expr → Bool
  | .const _ _ | .constr _ _ | .var _ _ | .element _ _ _ | .unary _ .deref _ => true
  | _ => false

/-- Whether a pattern can stand as an argument without parentheses. -/
def isSimplePattern : Pattern → Bool
  | .const _ _ | .var _ _ | .constr _ _ [] => true
  | .constr _ _ (_ :: _) => false

/-- The types that are written in a node itself. -/
def writtenTypes : Node → List Ty
  | .expr (.new _ ty) => [ty]
  | .param p => p.ty.toList
  | .definition (.function _ _ _ ty _) | .definition (.constant _ _ ty _)
  | .definition (.mutableVar _ _ ty) | .definition (.mutableArray _ _ _ ty) => ty.toList
  | .constructor c => c.args
  | _ => []

/-- The levels that are entered to read a node without those below it. -/
def ownNesting (n : Node) : Nat :=
  ((writtenTypes n).map tyNesting).foldr max
    (match n with
      | .expr _ | .pattern _ => 1
      | _ => 0)

/-- The nodes directly below a node, each with the number of levels between them. -/
def entries : Node → List (Nat × Node)
  | .expr (.binary _ _ left right) => [(0, .expr left), (1, .expr right)]
  | .expr (.construct _ _ args) | .expr (.call _ _ args) =>
    args.map fun e => (if isSimple e then 0 else 1, .expr e)
  | .expr e => (Node.exprChildren e).map fun c => (1, c)
  | .pattern (.constr _ _ args) =>
    args.map fun p => (if isSimplePattern p then 0 else 1, .pattern p)
  | n => n.children.map fun c => (0, c)

lemma entries_children (n : Node) : (entries n).map Prod.snd = n.children := by
  cases n with
  | expr e => cases e <;> simp [entries, Node.children, Node.exprChildren]
  | pattern p => cases p <;> simp [entries, Node.children]
  | _ => simp [entries, Function.comp_def]

lemma mem_children_of_entry {entry : Nat × Node} (h : entry ∈ entries n) :
    entry.2 ∈ n.children := by
  rw [← entries_children]
  exact List.mem_map_of_mem h

/-- The number of levels that are entered to read a node. -/
def nodeNesting (n : Node) : Nat :=
  ((entries n).attach.map fun entry => entry.1.1 + nodeNesting entry.1.2).foldr max (ownNesting n)
termination_by sizeOf n
decreasing_by exact sizeOf_lt_of_mem_children (mem_children_of_entry entry.2)

lemma foldr_max_le_iff {l : List Nat} {start : Nat} :
    l.foldr max start ≤ k ↔ start ≤ k ∧ ∀ x ∈ l, x ≤ k := by
  induction l with
  | nil => simp
  | cons x l ih =>
    rw [List.foldr_cons, Nat.max_le, ih, List.forall_mem_cons]
    exact and_left_comm

/-- A node is one higher than what lies directly below it. -/
lemma nodeHeight_le_iff : nodeHeight n ≤ k + 1 ↔ ∀ c ∈ n.children, nodeHeight c ≤ k := by
  rw [nodeHeight, Nat.succ_le_succ_iff, foldr_max_le_iff]
  simp

lemma nodeNesting_le_iff :
    nodeNesting n ≤ k ↔
      ownNesting n ≤ k ∧ ∀ entry ∈ entries n, entry.1 + nodeNesting entry.2 ≤ k := by
  rw [nodeNesting, foldr_max_le_iff, List.forall_mem_map]
  simp

lemma ownNesting_le (n : Node) : ownNesting n ≤ nodeNesting n :=
  (nodeNesting_le_iff.mp (Nat.le_refl _)).1

lemma nesting_entry {cost : Nat} (h : (cost, c) ∈ entries n) :
    cost + nodeNesting c ≤ nodeNesting n :=
  (nodeNesting_le_iff.mp (Nat.le_refl _)).2 (cost, c) h

lemma one_le_nesting_expr (e : Expr) : 1 ≤ nodeNesting (.expr e) := by
  have hown : 1 ≤ ownNesting (.expr e) := (foldr_max_le_iff.mp (Nat.le_refl _)).1
  exact Nat.le_trans hown (ownNesting_le _)

lemma one_le_nesting_pattern (p : Pattern) : 1 ≤ nodeNesting (.pattern p) := by
  have hown : 1 ≤ ownNesting (.pattern p) := (foldr_max_le_iff.mp (Nat.le_refl _)).1
  exact Nat.le_trans hown (ownNesting_le _)

/-- The number of operators that follow the first operand of an expression at its level. -/
def operators : Expr → Nat
  | .binary _ _ left _ => operators left + 1
  | _ => 0

/-- What is shown of each node from the bottom up, when no chain has more than `m` operators. An
expression may still become the left operand of the operators that its own chain lacks. -/
def Low (m : Nat) : Node → Prop
  | .expr e => operators e ≤ m ∧ nodeHeight (.expr e) + m + (if isSimple e then 2 else 0) ≤
      (m + 3) * nodeNesting (.expr e) + operators e
  | .letGroup g => nodeHeight (.letGroup g) ≤ (m + 3) * nodeNesting (.letGroup g) + 2
  | .definition d => nodeHeight (.definition d) ≤ (m + 3) * nodeNesting (.definition d) + 1
  | .clause c => nodeHeight (.clause c) ≤ (m + 3) * nodeNesting (.clause c) + 1
  | .pattern p => nodeHeight (.pattern p) ≤ nodeNesting (.pattern p) + 1
  | .param p => nodeHeight (.param p) ≤ 1
  | _ => True

variable {m : Nat}

lemma operators_of_isSimple (h : isSimple e = true) : operators e = 0 := by
  cases e <;> first | rfl | cases h

lemma Low.expr (h : Low m (.expr e)) : nodeHeight (.expr e) ≤ (m + 3) * nodeNesting (.expr e) := by
  obtain ⟨hoperators, hheight⟩ := h
  omega

/-- The room of a node holds that of a node below it, and more for each level between them. -/
lemma room_entry {cost : Nat} (h : (cost, c) ∈ entries n) :
    (m + 3) * cost + (m + 3) * nodeNesting c ≤ (m + 3) * nodeNesting n := by
  rw [← Nat.mul_add]
  exact Nat.mul_le_mul_left (m + 3) (nesting_entry h)

lemma room_expr (e : Expr) : m + 3 ≤ (m + 3) * nodeNesting (.expr e) :=
  Nat.le_mul_of_pos_right _ (one_le_nesting_expr e)

/-- An expression is low if the nodes below it are read one level deeper. -/
lemma nodeHeight_le_of_entered (extra : Nat)
    (hentries : entries (.expr e) = (Node.exprChildren e).map fun c => (1, c))
    (h : ∀ c ∈ Node.exprChildren e, nodeHeight c ≤ (m + 3) * nodeNesting c + extra) :
    nodeHeight (.expr e) + m + 2 ≤ (m + 3) * nodeNesting (.expr e) + extra := by
  have hroom := room_expr (m := m) e
  have hheight : nodeHeight (.expr e) ≤
      (m + 3) * nodeNesting (.expr e) - (m + 3) + extra + 1 := by
    rw [nodeHeight_le_iff]
    intro c hc
    have hentry : (1, c) ∈ entries (.expr e) := by
      rw [hentries]
      exact List.mem_map_of_mem hc
    have hbelow := h c hc
    have hmore := room_entry (m := m) hentry
    omega
  omega

lemma nodeHeight_binary {site : Site} {op : BinaryOp} {left right : Expr}
    (hleft : Low m (.expr left)) (hright : Low m (.expr right)) :
    nodeHeight (.expr (.binary site op left right)) + m ≤
      (m + 3) * nodeNesting (.expr (.binary site op left right)) + (operators left + 1) := by
  have hroom := room_expr (m := m) (.binary site op left right)
  have hheight : nodeHeight (.expr (.binary site op left right)) ≤
      (m + 3) * nodeNesting (.expr (.binary site op left right)) - m + operators left + 1 := by
    rw [nodeHeight_le_iff]
    refine List.forall_mem_cons.mpr ⟨?_, List.forall_mem_singleton.mpr ?_⟩
    · have hentry : (0, Node.expr left) ∈ entries (.expr (.binary site op left right)) :=
        List.mem_cons_self
      have hmore := room_entry (m := m) hentry
      have hlow := hleft.2
      omega
    · have hentry : (1, Node.expr right) ∈ entries (.expr (.binary site op left right)) :=
        List.mem_cons_of_mem _ List.mem_cons_self
      have hmore := room_entry (m := m) hentry
      have hlow := hright.expr
      omega
  omega

/-- Arguments that are read at the level of the whole are simple, and so have room left. -/
lemma nodeHeight_arguments {args : List Expr} (hchildren : Node.exprChildren e = args.map .expr)
    (hentries : entries (.expr e) = args.map fun arg => (if isSimple arg then 0 else 1, .expr arg))
    (hargs : ∀ arg ∈ args, Low m (.expr arg)) :
    nodeHeight (.expr e) + m ≤ (m + 3) * nodeNesting (.expr e) := by
  have hroom := room_expr (m := m) e
  have hheight : nodeHeight (.expr e) ≤ (m + 3) * nodeNesting (.expr e) - m - 1 + 1 := by
    rw [nodeHeight_le_iff, Node.children, hchildren, List.forall_mem_map]
    intro arg harg
    have hentry : (if isSimple arg then 0 else 1, Node.expr arg) ∈ entries (.expr e) := by
      rw [hentries]
      exact List.mem_map_of_mem harg
    have hmore := room_entry (m := m) hentry
    obtain ⟨hoperators, hlow⟩ := hargs arg harg
    by_cases hsimple : isSimple arg = true
    · rw [if_pos hsimple] at hmore hlow
      rw [operators_of_isSimple hsimple] at hlow
      omega
    · rw [if_neg hsimple] at hmore hlow
      omega
  omega

/-- A node is one higher than the nodes below it if they are read at its own level. -/
lemma nodeHeight_le_of_beside (n : Node) (extra : Nat)
    (hentries : entries n = n.children.map fun c => (0, c))
    (h : ∀ c ∈ n.children, nodeHeight c ≤ (m + 3) * nodeNesting c + extra) :
    nodeHeight n ≤ (m + 3) * nodeNesting n + extra + 1 := by
  rw [nodeHeight_le_iff]
  intro c hc
  have hentry : (0, c) ∈ entries n := by
    rw [hentries]
    exact List.mem_map_of_mem hc
  have hbelow := h c hc
  have hmore := room_entry (m := m) hentry
  omega

lemma Low.pattern (h : Low m (.pattern p)) :
    nodeHeight (.pattern p) ≤ (m + 3) * nodeNesting (.pattern p) := by
  have hone := one_le_nesting_pattern p
  have hroom := Nat.mul_le_mul_right (nodeNesting (.pattern p)) (Nat.le_add_left 3 m)
  have hlow : nodeHeight (.pattern p) ≤ nodeNesting (.pattern p) + 1 := h
  omega

lemma nodeHeight_of_leaf (h : n.children = []) : nodeHeight n ≤ 1 := by
  rw [nodeHeight_le_iff, h]
  exact fun c hc => absurd hc List.not_mem_nil

lemma children_of_isSimplePattern (h : isSimplePattern p = true) :
    (Node.pattern p).children = [] := by
  unfold isSimplePattern at h
  split at h
  · rfl
  · rfl
  · rfl
  · cases h

lemma low_expr (hbelow : ∀ c ∈ Node.exprChildren e, Low m c) (hchain : operators e ≤ m) :
    Low m (.expr e) := by
  refine ⟨hchain, ?_⟩
  cases e with
  | binary site op left right =>
    exact nodeHeight_binary (hbelow _ List.mem_cons_self)
      (hbelow _ (List.mem_cons_of_mem _ List.mem_cons_self))
  | construct site name args =>
    exact nodeHeight_arguments rfl rfl (List.forall_mem_map.mp hbelow)
  | call site name args =>
    exact nodeHeight_arguments rfl rfl (List.forall_mem_map.mp hbelow)
  | letIn site group body =>
    obtain ⟨hgroup, hbody⟩ := List.forall_mem_cons.mp hbelow
    have hheight : nodeHeight (.expr (.letIn site group body)) + m + 2 ≤
        (m + 3) * nodeNesting (.expr (.letIn site group body)) + 2 := by
      refine nodeHeight_le_of_entered 2 rfl (List.forall_mem_cons.mpr ⟨hgroup, ?_⟩)
      refine List.forall_mem_singleton.mpr (Nat.le_add_right_of_le ?_)
      exact Low.expr (hbody _ List.mem_cons_self)
    exact Nat.le_of_add_le_add_right hheight
  | matchWith site scrutinee clauses =>
    obtain ⟨hscrutinee, hclauses⟩ := List.forall_mem_cons.mp hbelow
    have hheight : nodeHeight (.expr (.matchWith site scrutinee clauses)) + m + 2 ≤
        (m + 3) * nodeNesting (.expr (.matchWith site scrutinee clauses)) + 2 := by
      refine nodeHeight_le_of_entered 2 rfl (List.forall_mem_cons.mpr ⟨?_, ?_⟩)
      · exact Nat.le_add_right_of_le (Low.expr hscrutinee)
      · exact fun c hc => Nat.le_succ_of_le (by
          obtain ⟨clause, hclause, rfl⟩ := List.mem_map.mp hc
          exact hclauses _ hc)
    exact Nat.le_of_add_le_add_right hheight
  | _ =>
    have hheight := nodeHeight_le_of_entered (m := m) 0 rfl fun c hc => by
      have hlow := hbelow c hc
      cases c with
      | expr e => exact hlow.expr
      | _ => simp [Node.exprChildren] at hc
    split <;> omega

lemma low_definition {d : Def} (hbelow : ∀ c ∈ Node.defChildren d, Low m c) :
    Low m (.definition d) := by
  cases d with
  | function site name params result body =>
    obtain ⟨hparams, hbody⟩ := List.forall_mem_append.mp hbelow
    have hentry : (0, Node.expr body) ∈
        entries (.definition (.function site name params result body)) := by
      simp [entries, Node.children, Node.defChildren]
    have hmore := room_entry (m := m) hentry
    have hroom := room_expr (m := m) body
    have hlow := Low.expr (hbody _ List.mem_cons_self)
    refine nodeHeight_le_iff.mpr (List.forall_mem_append.mpr ⟨?_, ?_⟩)
    · refine List.forall_mem_map.mpr fun p hp => ?_
      have hleaf : nodeHeight (.param p) ≤ 1 := hparams _ (List.mem_map_of_mem hp)
      omega
    · refine List.forall_mem_singleton.mpr ?_
      omega
  | _ =>
    refine nodeHeight_le_of_beside (.definition _) 0 rfl fun c hc => ?_
    have hlow := hbelow c hc
    cases c with
    | expr e => exact hlow.expr
    | _ => simp [Node.children, Node.defChildren] at hc

lemma low_clause {clause : Clause} (hpattern : Low m (.pattern clause.pattern))
    (hbody : Low m (.expr clause.body)) : Low m (.clause clause) := by
  refine nodeHeight_le_of_beside (.clause clause) 0 rfl ?_
  intro c hc
  rcases List.mem_cons.mp hc with rfl | hlast
  · exact hpattern.pattern
  · cases List.mem_singleton.mp hlast
    exact hbody.expr

lemma low_pattern (hbelow : ∀ c ∈ (Node.pattern p).children, Low m c) : Low m (.pattern p) := by
  have hone := one_le_nesting_pattern p
  cases p with
  | constr site name args =>
    refine nodeHeight_le_iff.mpr (List.forall_mem_map.mpr fun arg harg => ?_)
    have hlow : nodeHeight (.pattern arg) ≤ nodeNesting (.pattern arg) + 1 :=
      hbelow _ (List.mem_map_of_mem harg)
    have hentry : (if isSimplePattern arg then 0 else 1, Node.pattern arg) ∈
        entries (.pattern (.constr site name args)) := List.mem_map_of_mem harg
    have hmore := nesting_entry hentry
    by_cases hsimple : isSimplePattern arg = true
    · have hleaf := nodeHeight_of_leaf (children_of_isSimplePattern hsimple)
      omega
    · rw [if_neg hsimple] at hmore
      omega
  | const site value =>
    have hleaf := nodeHeight_of_leaf (n := .pattern (.const site value)) rfl
    exact Nat.le_add_right_of_le (Nat.le_trans hleaf hone)
  | var site name =>
    have hleaf := nodeHeight_of_leaf (n := .pattern (.var site name)) rfl
    exact Nat.le_add_right_of_le (Nat.le_trans hleaf hone)

/-- One step up: a node is low if the nodes below it are. -/
lemma low_step (hbelow : ∀ c ∈ n.children, Low m c) (hchain : ∀ e, n = .expr e → operators e ≤ m) :
    Low m n := by
  cases n with
  | expr e => exact low_expr hbelow (hchain e rfl)
  | letGroup g =>
    have hdefs := List.forall_mem_map.mp hbelow
    exact nodeHeight_le_of_beside (.letGroup g) 1 rfl (List.forall_mem_map.mpr hdefs)
  | definition d => exact low_definition hbelow
  | clause c =>
    exact low_clause (hbelow _ List.mem_cons_self)
      (hbelow _ (List.mem_cons_of_mem _ List.mem_cons_self))
  | pattern p => exact low_pattern hbelow
  | param p => exact nodeHeight_of_leaf rfl
  | _ => trivial

lemma PostOrder.mem_of_root (h : PostOrder roots listed) : ∀ n ∈ roots, n ∈ listed := by
  induction h with
  | nil => exact fun _ hn => hn
  | cons _ _ _ ih =>
    refine List.forall_mem_cons.mpr ⟨by simp, fun n hn => ?_⟩
    exact List.mem_append_right _ (List.mem_cons_of_mem _ (ih n hn))

/-- What each node hands up holds of all nodes of a tree. -/
lemma PostOrder.forall_of_leaves {Q : Node → Prop} (h : PostOrder roots listed)
    (hstep : ∀ n ∈ listed, (∀ c ∈ n.children, Q c) → Q n) : ∀ n ∈ listed, Q n := by
  induction h with
  | nil => exact fun _ hn => absurd hn List.not_mem_nil
  | @cons n below roots later hchildren _ ihbelow ihlater =>
    have hbelow := ihbelow fun c hc => hstep c (by simp [hc])
    have hlater := ihlater fun c hc => hstep c (by simp [hc])
    have hn : Q n := hstep n (by simp) fun c hc => hbelow c (hchildren.mem_of_root c hc)
    exact List.forall_mem_append.mpr ⟨hbelow, List.forall_mem_cons.mpr ⟨hn, hlater⟩⟩

/-- What each node hands down holds of all nodes of a tree. -/
lemma PostOrder.forall_of_roots {Q : Node → Prop} (h : PostOrder roots listed)
    (hstep : ∀ n, Q n → ∀ c ∈ n.children, Q c) (hroots : ∀ n ∈ roots, Q n) : ∀ n ∈ listed, Q n := by
  induction h with
  | nil => exact hroots
  | @cons n below roots later _ _ ihbelow ihlater =>
    obtain ⟨hn, hlater⟩ := List.forall_mem_cons.mp hroots
    refine List.forall_mem_append.mpr ⟨ihbelow (hstep n hn), ?_⟩
    exact List.forall_mem_cons.mpr ⟨hn, ihlater hlater⟩

/-- Below a node nothing is nested deeper. -/
lemma nodeNesting_le_of_mem_children (h : c ∈ n.children) : nodeNesting c ≤ nodeNesting n := by
  rw [← entries_children] at h
  obtain ⟨⟨cost, c⟩, hentry, rfl⟩ := List.mem_map.mp h
  have hnesting := nesting_entry hentry
  exact Nat.le_trans (Nat.le_add_left _ _) hnesting

/-- The height of an expression without chains of more than `m` operators. -/
lemma nodeHeight_le_nesting (hchain : ∀ e', .expr e' ∈ e.nodes → operators e' ≤ m) :
    nodeHeight (.expr e) ≤ (m + 3) * nodeNesting (.expr e) := by
  have hlisted : PostOrder [.expr e] e.nodes := tree_postOrder.expr e
  have hlow : ∀ n ∈ e.nodes, Low m n := hlisted.forall_of_leaves fun n hn hbelow =>
    low_step hbelow fun e' he' => hchain e' (he' ▸ hn)
  exact Low.expr (hlow _ (hlisted.mem_of_root _ List.mem_cons_self))

lemma patternHeight_le_nesting (p : Pattern) :
    nodeHeight (.pattern p) ≤ nodeNesting (.pattern p) + 1 := by
  have hcases : PatternCases fun p => Low 0 (.pattern p) :=
    { constr := fun _ _ _ ih => low_pattern (List.forall_mem_map.mpr ih)
      const := fun _ _ => low_pattern fun _ h => absurd h List.not_mem_nil
      var := fun _ _ => low_pattern fun _ h => absurd h List.not_mem_nil }
  exact hcases.pattern p

end Llama.Proofs
