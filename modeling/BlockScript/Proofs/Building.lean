-- Programs that stop. A script is built and written without a fault unless one
-- of its nodes, or the id of one of its functions, is the cause of it.
import BlockScript.Compile.Source
import BlockScript.Proofs.Faults

namespace BlockScript

/-! ## Declarations -/

theorem errsOnly_body (y : Style) (depth : Int) (body : List Node) (s : Scope) :
    ErrsOnly (CausedIn (Node.walkAll body)) (y.body depth body s) :=
  errsOnly_bind (errsOnly_actionsAll _ body s) fun _ => errsOnly_ok _

theorem errsOnly_returned (y : Style) {P : Fault → Prop} {value : Outcome}
    (h : ErrsOnly (Obstacle.AllowedBy P) value) : ErrsOnly P (y.returned value) := by
  unfold Style.returned
  split
  · exact errsOnly_ok _
  · exact errsOnly_ok _
  · exact errsOnly_error (h _ rfl)

mutual

theorem Node.mem_of_last {p : Node → Bool} {m : Node} :
    (n : Node) → Node.last? p n = some m → m ∈ n.walk
  | .mk tag arguments branches labels => by
    intro h
    rw [Node.last?] at h
    split at h
    · cases h
      exact Node.mem_walk_self _
    · exact Node.branches_subset_walk (.mk tag arguments branches labels)
        (Node.mem_of_lastInBranches branches h)

theorem Node.mem_of_lastInBody {p : Node → Bool} {m : Node} :
    (body : List Node) → Node.lastInBody? p body = some m → m ∈ Node.walkAll body
  | [] => by
    intro h
    cases h
  | n :: rest => by
    intro h
    rcases Option.or_eq_some_iff.mp h with h | ⟨-, h⟩
    · exact List.mem_append_right _ (Node.mem_of_lastInBody rest h)
    · exact List.mem_append_left _ (Node.mem_of_last n h)

theorem Node.mem_of_lastInBranches {p : Node → Bool} {m : Node} :
    (branches : List (List Node)) → Node.lastInBranches? p branches = some m →
      m ∈ Node.walkBranches branches
  | [] => by
    intro h
    cases h
  | body :: rest => by
    intro h
    rcases Option.or_eq_some_iff.mp h with h | ⟨-, h⟩
    · exact List.mem_append_right _ (Node.mem_of_lastInBranches rest h)
    · exact List.mem_append_left _ (Node.mem_of_lastInBody body h)

end

theorem errsOnly_assigned (n : Node) : ErrsOnly n.Causes n.assigned? := by
  unfold Node.assigned?
  simp only
  split
  · rename_i haction
    split
    · refine errsOnly_bind ?_ fun _ => errsOnly_ok _
      refine (errsOnly_written _ _ _).mono fun f hf => ?_
      exact Node.causes_of_local (Node.tag_of_action haction) (.inr rfl) ‹_› hf
    · exact errsOnly_ok _
  · split
    · exact errsOnly_ok _
    · exact errsOnly_ok _

theorem errsOnly_lastAssignment (body : List Node) :
    ErrsOnly (CausedIn (Node.walkAll body)) (lastAssignment? body) := by
  unfold lastAssignment?
  split
  · exact errsOnly_ok _
  · rename_i n hlast
    refine errsOnly_bind (errsOnly_demandKey fun hkey => ?_) fun _ => errsOnly_ok _
    exact ⟨n, Node.mem_of_lastInBody body hlast, .tag hkey⟩

theorem mem_of_lastAssignment {body : List Node} {n : Node}
    (h : lastAssignment? body = .ok (some n)) : n ∈ Node.walkAll body := by
  unfold lastAssignment? at h
  split at h
  · cases h
  · rename_i hlast
    obtain ⟨-, -, h⟩ := ok_of_bind_ok h
    cases h
    exact Node.mem_of_lastInBody body hlast

theorem errsOnly_returnedVariable (last : Node) :
    ErrsOnly (CausedIn last.walk) (returnedVariable last) := by
  have hwalk : Node.walkAll [last] = last.walk := by
    rw [Node.walkAll_eq, List.flatMap_singleton]
  rw [← hwalk]
  unfold returnedVariable
  refine errsOnly_bind_of_ok (errsOnly_lastAssignment [last]) fun found hfound => ?_
  cases found with
  | none => exact errsOnly_ok _
  | some n => exact (errsOnly_assigned n).mono fun f hf => ⟨n, mem_of_lastAssignment hfound, hf⟩

theorem errsOnly_functionBody (y : Style) (f : Function) (s : Scope) :
    ErrsOnly (CausedIn (Node.walkAll f.body)) (y.functionBody f s) := by
  have hbody := errsOnly_body y 1 f.body s
  unfold Style.functionBody
  split
  · rename_i last _ hlast
    have hmem : last ∈ f.body := List.mem_of_getLast? hlast
    have hwalk := Node.walk_subset_walkAll hmem
    have hkey : ErrsOnly (CausedIn (Node.walkAll f.body)) last.tag.demandKey :=
      errsOnly_demandKey fun hkey => ⟨last, hwalk last.mem_walk_self, .tag hkey⟩
    refine errsOnly_bind (errsOnly_bind hkey fun _ => errsOnly_ok _) fun hasValue => ?_
    refine errsOnly_bind (errsOnly_bind hkey fun _ => errsOnly_ok _) fun isAction => ?_
    split
    · have hfront := errsOnly_within (Node.walkAll_mono (List.dropLast_subset f.body))
        (errsOnly_body y 1 f.body.dropLast s)
      have hvalue := allowed_within hwalk (errsOnly_value y.extensions s.object last)
      exact errsOnly_bind hfront fun _ => errsOnly_bind (errsOnly_returned y hvalue) fun _ =>
        errsOnly_ok _
    · refine errsOnly_bind hbody fun text => ?_
      split
      · exact errsOnly_ok _
      · refine errsOnly_bind (errsOnly_within hwalk (errsOnly_returnedVariable last)) fun e => ?_
        cases e <;> exact errsOnly_ok _
  · exact hbody

/-- A function stops at a node of its body, or at its own id. -/
theorem errsOnly_function (y : Style) (object : Json) (f : Function) :
    ErrsOnly (fun e => CausedIn (Node.walkAll f.body) e ∨ f.id.Unencodable e)
      (y.function object f) := by
  unfold Style.function
  refine errsOnly_bind ((errsOnly_written _ f.id _).mono fun _ => .inr) fun name => ?_
  refine errsOnly_bind ((errsOnly_functionBody y f _).mono fun _ => .inl) fun body => ?_
  exact errsOnly_ok _

theorem errsOnly_handler (y : Style) (object : Json) (h : Handler) :
    ErrsOnly (CausedIn (Node.walkAll h.body)) (y.handler object h) := by
  unfold Style.handler
  split
  · exact errsOnly_ok _
  · split
    · exact errsOnly_ok _
    · exact errsOnly_bind (errsOnly_body y _ h.body _) fun _ => errsOnly_ok _

/-! ## Building -/

mutual

theorem Node.walk_of_mem_fieldChain {m : Node} :
    (n : Node) → m ∈ n.fieldChain → m.walk ⊆ n.walk
  | .mk tag arguments branches labels => by
    intro h
    refine List.Subset.trans (Argument.walk_of_mem_fieldChain arguments h) ?_
    exact Node.arguments_subset_walk (.mk tag arguments branches labels)

theorem Argument.walk_of_mem_fieldChain {m : Node} :
    (arguments : List Argument) → m ∈ Argument.fieldChain arguments →
      m.walk ⊆ Argument.walkAll arguments
  | [] => by
    intro h
    cases h
  | .literal v :: rest => fun h => Argument.walk_of_mem_fieldChain rest h
  | .block n :: rest => by
    intro h
    rw [Argument.fieldChain] at h
    split at h
    · rcases List.mem_cons.mp h with rfl | h
      · exact List.subset_append_left _ _
      · exact List.subset_append_of_subset_left _ (Node.walk_of_mem_fieldChain n h)
    · exact List.subset_append_of_subset_right _ (Argument.walk_of_mem_fieldChain rest h)

end

theorem Argument.walk_of_block {n : Node} {arguments : List Argument}
    (h : Argument.block n ∈ arguments) : n.walk ⊆ Argument.walkAll arguments := by
  induction arguments with
  | nil => cases h
  | cons a rest ih =>
    rcases List.mem_cons.mp h with rfl | hrest
    · exact List.subset_append_left _ _
    · cases a with
      | literal v => exact ih hrest
      | block m => exact List.subset_append_of_subset_right _ (ih hrest)

/-- The parameter of a field is that of a node in it. -/
theorem Node.mem_of_fieldParam {n : Node} {p : Text × Nat} (h : n.fieldParam? = some p) :
    ∃ m ∈ n.walk, p.1 ∈ m.ids := by
  unfold Node.fieldParam? at h
  split at h
  · split at h
    · obtain ⟨m, hm, hid⟩ := List.exists_of_findSome?_eq_some h
      obtain ⟨a, ha, hblock⟩ := List.mem_filterMap.mp hm
      cases a with
      | literal v => cases hblock
      | block m' =>
        cases hblock
        obtain ⟨id, hparam, rfl⟩ := Option.map_eq_some_iff.mp hid
        refine ⟨m, n.arguments_subset_walk (Argument.walk_of_block ha m.mem_walk_self), ?_⟩
        simp [Node.ids, (Option.filter_eq_some_iff.mp hparam).1]
    · cases h
  · cases h

theorem errsOnly_paramNames (n : Node) : ErrsOnly (CausedIn n.walk) n.paramNames := by
  unfold Node.paramNames
  apply errsOnly_mapM
  intro p hp
  obtain ⟨field, hfield, hparam⟩ := List.mem_filterMap.mp hp
  obtain ⟨m, hm, hmem⟩ := Node.mem_of_fieldParam hparam
  refine (errsOnly_written _ _ _).mono fun f hf => ⟨m, ?_, Node.causes_of_unencodable hmem hf⟩
  exact Node.walk_of_mem_fieldChain n hfield hm

theorem errsOnly_localName (n : Node) : ErrsOnly n.Causes n.localName? := by
  unfold Node.localName?
  split
  · rename_i id hid
    refine errsOnly_bind ((errsOnly_written _ id _).mono fun f hf => ?_) fun _ => errsOnly_ok _
    cases hf with
    | of he => exact .id (by simp [Node.ids, hid, Json.text?]) he
  · exact errsOnly_bind (errsOnly_demandKey .tag) fun _ => errsOnly_ok _

theorem errsOnly_localNames (body : List Node) :
    ErrsOnly (CausedIn (Node.walkAll body)) (localNames body) := by
  unfold localNames
  refine errsOnly_bind (errsOnly_mapM fun n hn => ?_) fun _ => errsOnly_ok _
  exact (errsOnly_localName n).mono fun f hf => ⟨n, hn, hf⟩

/-- The node of a raw block with the given fields and tag. -/
def nodeOf (object : Json) (draws : Draws) (tag : Text) (fields : List (Text × Json)) : Node :=
  Node.assemble object (.str tag) draws.here fields (Json.fieldRoles object draws fields)

theorem roles_obj (object : Json) (draws : Draws) {fields : List (Text × Json)} {tag : Text}
    (h : textField? "type" fields = some tag) :
    (Json.roles object draws (.obj fields)).block = some (nodeOf object draws tag fields) := by
  rw [Json.roles]
  simp only [h, Option.map_some]
  rfl

/-- The nodes of all stacks of a script. -/
def scriptNodes (object : Json) (draws : Draws) (script : Json) : List Node :=
  (draws.deal ((readScript script).getD [])).flatMap fun s =>
    Node.walkAll (Json.roles object s.1 s.2).stack

theorem errsOnly_ofBlock (object functionId : Json) (draws : Draws) (tag : Text)
    (fields : List (Text × Json)) :
    ErrsOnly (CausedIn (nodeOf object draws tag fields).walk)
      (Function.ofBlock object functionId draws tag fields) := by
  unfold Function.ofBlock
  refine errsOnly_bind (errsOnly_paramNames _) fun params => ?_
  refine errsOnly_bind ?_ fun locals => errsOnly_ok _
  exact errsOnly_within (Node.branch_subset_walk _ 0) (errsOnly_localNames _)

/-- What a stack can declare: a handler of the blocks after its head, or its head's function. -/
theorem ofStack_cases (isStart : Text → Bool) (object functionId : Json) (draws : Draws)
    (stack : Json) :
    Declaration.ofStack? isStart object functionId draws stack = .ok none ∨
    ∃ fields rest tag, stack = .arr (.obj fields :: rest) ∧ textField? "type" fields = some tag ∧
      (Declaration.ofStack? isStart object functionId draws stack
          = .ok (some (.handler (Handler.ofStack object draws tag fields rest))) ∨
        Declaration.ofStack? isStart object functionId draws stack
          = Function.ofBlock object functionId draws.first tag fields >>=
            fun f => .ok (some (.function f))) := by
  unfold Declaration.ofStack?
  split
  · rename_i fields rest
    split
    · exact .inl rfl
    · rename_i tag htag
      split
      · exact .inr ⟨fields, rest, tag, rfl, htag, .inl rfl⟩
      · split
        · exact .inr ⟨fields, rest, tag, rfl, htag, .inr rfl⟩
        · exact .inl rfl
  · exact .inl rfl

theorem roles_stack_cons (object : Json) (draws : Draws) (v : Json) (rest : List Json) :
    (Json.roles object draws (.arr (v :: rest))).stack =
      (Json.roles object draws.first v).block.toList
        ++ (Json.roles object draws.rest (.arr rest)).stack := by
  simp only [Json.roles, Json.itemRoles, List.filterMap_cons]
  cases (Json.roles object draws.first v).block <;> rfl

theorem stack_cons_block {object : Json} {draws : Draws} {fields : List (Text × Json)} {tag : Text}
    (h : textField? "type" fields = some tag) (rest : List Json) :
    (Json.roles object draws (.arr (.obj fields :: rest))).stack =
      nodeOf object draws.first tag fields :: (Json.roles object draws.rest (.arr rest)).stack := by
  rw [roles_stack_cons, roles_obj object draws.first h]
  rfl

theorem errsOnly_ofStack (isStart : Text → Bool) (object functionId : Json) (draws : Draws)
    (stack : Json) :
    ErrsOnly (CausedIn (Node.walkAll (Json.roles object draws stack).stack))
      (Declaration.ofStack? isStart object functionId draws stack) := by
  rcases ofStack_cases isStart object functionId draws stack with
    h | ⟨fields, rest, tag, rfl, htag, h | h⟩ <;> rw [h]
  · exact errsOnly_ok _
  · exact errsOnly_ok _
  · rw [stack_cons_block htag]
    refine errsOnly_bind ?_ fun _ => errsOnly_ok _
    exact errsOnly_within (List.subset_append_left _ _)
      (errsOnly_ofBlock object functionId draws.first tag fields)

/-- The blocks of a declaration. -/
def Declaration.body : Declaration → List Node
  | .handler h => h.body
  | .function f => f.body

theorem body_ofBlock {object functionId : Json} {draws : Draws} {tag : Text}
    {fields : List (Text × Json)} {f : Function}
    (h : Function.ofBlock object functionId draws tag fields = .ok f) :
    f.body = (nodeOf object draws tag fields).branch 0 := by
  obtain ⟨params, -, h⟩ := ok_of_bind_ok h
  obtain ⟨locals, -, h⟩ := ok_of_bind_ok h
  cases h
  rfl

theorem body_subset_stack {isStart : Text → Bool} {object functionId : Json} {draws : Draws}
    {stack : Json} {d : Declaration}
    (h : Declaration.ofStack? isStart object functionId draws stack = .ok (some d)) :
    Node.walkAll d.body ⊆ Node.walkAll (Json.roles object draws stack).stack := by
  rcases ofStack_cases isStart object functionId draws stack with
    h' | ⟨fields, rest, tag, rfl, htag, h' | h'⟩ <;> rw [h'] at h
  · cases h
  · cases h
    rw [stack_cons_block htag]
    exact List.subset_append_right _ _
  · rw [stack_cons_block htag]
    obtain ⟨f, hf, h⟩ := ok_of_bind_ok h
    cases h
    rw [Declaration.body, body_ofBlock hf]
    exact List.subset_append_of_subset_left _ (Node.branch_subset_walk _ 0)

theorem mem_of_mapM_ok {ε α β : Type} {f : α → Except ε β} {xs : List α} {ys : List β}
    (h : xs.mapM f = .ok ys) : ∀ y ∈ ys, ∃ x ∈ xs, f x = .ok y := by
  induction xs generalizing ys with
  | nil =>
    cases h
    simp
  | cons x rest ih =>
    rw [List.mapM_cons] at h
    obtain ⟨y, hy, h⟩ := ok_of_bind_ok h
    obtain ⟨more, hmore, h⟩ := ok_of_bind_ok h
    cases h
    intro z hz
    rcases List.mem_cons.mp hz with rfl | hz
    · exact ⟨x, List.mem_cons_self, hy⟩
    · obtain ⟨x', hx', hz⟩ := ih hmore z hz
      exact ⟨x', List.mem_cons_of_mem _ hx', hz⟩

theorem errsOnly_build (draws : Draws) (script object functionId : Json) :
    ErrsOnly (CausedIn (scriptNodes object draws script))
      (Program.build draws script object functionId) := by
  unfold Program.build
  refine errsOnly_bind (errsOnly_mapM fun s hs => ?_) fun _ => errsOnly_ok _
  refine errsOnly_within (fun n hn => ?_) (errsOnly_ofStack _ object functionId s.1 s.2)
  exact List.mem_flatMap.mpr ⟨s, hs, hn⟩

/-- Each declaration of a program is that of a stack. -/
theorem stack_of_build {draws : Draws} {script object functionId : Json} {p : Program}
    (h : Program.build draws script object functionId = .ok p) {d : Declaration} (hd : d ∈ p) :
    ∃ s ∈ draws.deal ((readScript script).getD []),
      Declaration.ofStack? isStartTag object functionId s.1 s.2 = .ok (some d) := by
  obtain ⟨found, hfound, h⟩ := ok_of_bind_ok h
  cases h
  obtain ⟨d', hd', rfl⟩ := List.mem_filterMap.mp hd
  exact mem_of_mapM_ok hfound _ hd'

theorem body_subset_scriptNodes {draws : Draws} {script object functionId : Json} {p : Program}
    (h : Program.build draws script object functionId = .ok p) {d : Declaration} (hd : d ∈ p) :
    Node.walkAll d.body ⊆ scriptNodes object draws script := by
  obtain ⟨s, hs, hdecl⟩ := stack_of_build h hd
  exact fun n hn => List.mem_flatMap.mpr ⟨s, hs, body_subset_stack hdecl hn⟩

/-- A program that was built stops at a node of its script, or at the id of a function. -/
theorem errsOnly_source (y : Style) {draws : Draws} {script object functionId : Json} {p : Program}
    (h : Program.build draws script object functionId = .ok p) :
    ErrsOnly (fun e => CausedIn (scriptNodes object draws script) e ∨
      ∃ f, .function f ∈ p ∧ f.id.Unencodable e) (y.source object p) := by
  unfold Style.source Style.parts
  refine errsOnly_bind (errsOnly_bind (errsOnly_mapM fun f hf => ?_) fun _ =>
    errsOnly_bind (errsOnly_mapM fun g hg => ?_) fun _ => errsOnly_ok _) fun _ => errsOnly_ok _
  · obtain ⟨d, hd, hfunction⟩ := List.mem_filterMap.mp hf
    cases d with
    | handler g => cases hfunction
    | function f' =>
      cases hfunction
      refine (errsOnly_function y object f).mono fun e he => ?_
      rcases he with he | he
      · exact .inl (he.mono (body_subset_scriptNodes h hd))
      · exact .inr ⟨f, hd, he⟩
  · obtain ⟨d, hd, hhandler⟩ := List.mem_filterMap.mp hg
    cases d with
    | function f => cases hhandler
    | handler g' =>
      cases hhandler
      exact (errsOnly_handler y object g).mono fun e he =>
        .inl (he.mono (body_subset_scriptNodes h hd))

end BlockScript
