import Mis.Proofs.CallOrder

/-!
Calls where a value is asked for. Lowering finds a slot for every such call, as
the value of a statement or as an argument, and only a call of a function with a
result has a slot. So a function without one is called in no such place.
-/
namespace Mis

theorem Stmt.mem_exprs_of_mem_values {ι : Type} {s : Stmt ι} {e : Expr ι} (h : e ∈ s.values) :
    e ∈ s.exprs := by
  cases s with
  | declare _ _ _ _ | assign _ _ _ | branch _ _ _ _ | loop _ _ _ => exact h
  | leave _ value =>
      cases value with
      | none => cases h
      | some e => exact h
  | call _ _ => cases h

namespace FunctionDecl

theorem mem_exprs_of_mem_values {ι : Type} {f : FunctionDecl ι} {e : Expr ι} (h : e ∈ f.values) :
    e ∈ f.exprs := by
  obtain h | h := List.mem_append.mp h
  · obtain ⟨s, hs, he⟩ := List.mem_flatMap.mp h
    exact mem_exprs.mpr ⟨s, hs, e, Stmt.mem_exprs_of_mem_values he, e.self_mem_parts⟩
  · obtain ⟨a, ha, he⟩ := List.mem_flatMap.mp h
    exact mem_exprs_of_mem_args ha he

variable {t : SymbolTable} {types : Table NodeId Ty} {globals : Scope} {f : FunctionDecl NodeId}
  {frame : Frame} {body : List C.Stmt}

theorem Linearized.exists_line {nodes : List (CallNode NodeId)} {lines : List CallLine}
    (h : f.Linearized t types globals frame nodes lines) {n : CallNode NodeId} (hn : n ∈ nodes) :
    ∃ l ∈ lines, l.node = n := by
  rw [← h.nodes_eq] at hn
  exact List.mem_map.mp hn

/-- A call has a slot where its value is asked for. -/
theorem exists_slot_of_mem_values (hids : (Stmt.idsAll f.body).Nodup)
    (h : f.frame t types globals = .ok frame) (hbody : Stmt.lowerAll frame f.body = .ok body)
    {n : CallNode NodeId} (hn : n.expr ∈ f.values) :
    ∃ c, frame.valueSlots.get? n.id = some c := by
  obtain hn | hn := List.mem_append.mp hn
  · obtain ⟨s, hs, hvalue⟩ := List.mem_flatMap.mp hn
    obtain ⟨part, hpart, _⟩ := Stmt.exists_lower_of_mem_partsAll f.body body hbody hs
    obtain ⟨o, ho⟩ := Stmt.exists_valueOf_of_mem_values hpart hvalue
    obtain ⟨c, hc, _⟩ := bind_eq_ok.mp ho
    exact ⟨c, Frame.hasSlot_of_slotOf hc⟩
  · obtain ⟨a, ha, harg⟩ := List.mem_flatMap.mp hn
    cases a with
    | literal _ _ | name _ _ => cases harg
    | call id callee args =>
        -- the outer call has a line, and the line an operand for this argument
        have hcall : ⟨id, callee, args⟩ ∈ Stmt.callsAll f.body := mem_calls.mpr ha
        obtain ⟨lines, hlines, _⟩ := exists_linearized_of_lowerAll hids h hbody
        obtain ⟨l, hl, hnode⟩ := hlines.exists_line hcall
        have harg : n.expr ∈ l.node.args := hnode ▸ harg
        obtain ⟨_, _, c, _, hslot, _⟩ := exists_of_forall₂_left (hlines.passes l hl) harg
        exact ⟨c, hslot⟩

/-- So it means a function with a result, and its line has an out-parameter. -/
theorem Linearized.exists_line_of_mem_values {lines : List CallLine}
    (hlines : f.Linearized t types globals frame (Stmt.callsAll f.body) lines)
    (hids : (Stmt.idsAll f.body).Nodup) (h : f.frame t types globals = .ok frame)
    (hbody : Stmt.lowerAll frame f.body = .ok body) {n : CallNode NodeId}
    (hn : n.expr ∈ f.values) :
    ∃ l ∈ lines, ∃ s type tmp, l.node = n ∧ (∀ s', f.Means t types globals n s' ↔ s' = s) ∧
      s.result = some type ∧ ⟨tmp, type⟩ ∈ frame.locals ∧
      l.call = (Frame.calledName n.callee s, .addressOf tmp :: l.inputs) := by
  have hcall : n ∈ Stmt.callsAll f.body := mem_calls.mpr (mem_exprs_of_mem_values hn)
  obtain ⟨c, hslot⟩ := exists_slot_of_mem_values hids h hbody hn
  obtain ⟨l, hl, rfl⟩ := hlines.exists_line hcall
  obtain ⟨s, hmeans, hname, ⟨_, hresult⟩ | ⟨type, tmp, hs, hresult, htemp⟩⟩ := hlines.realizes l hl
  · rw [hlines.result_eq l hl, hslot] at hresult
    cases hresult
  · obtain ⟨r, _, hunique⟩ := existsUnique_means hids h hcall
    refine ⟨l, hl, s, type, tmp, rfl, ?_, hs, ?_, ?_⟩
    · intro s'
      constructor
      · exact fun hmeans' => (hunique s' hmeans').trans (hunique s hmeans).symm
      · exact fun heq => heq ▸ hmeans
    · exact List.mem_append_right _ (List.mem_map.mpr ⟨_, List.mem_append_left _ htemp, rfl⟩)
    · rw [CallLine.call, CallLine.operands, hname, hresult]
      rfl

end FunctionDecl

/-- In a compiled module every call that stands as an argument, as a value that is declared,
assigned or returned, or as a condition, means one symbol, which has a result, and is made with
the temporary for the result as its first operand. -/
theorem Module.value_calls_have_results {m : Module NodeId} {program : C.Program}
    {f : FunctionDecl NodeId} (hids : m.ids.Nodup) (h : m.compile = .ok program)
    (hf : f ∈ m.generatedFunctions) :
    ∃ typed g frame lines, m.typed m.symbolTable = .ok typed ∧ g ∈ program.functions ∧
      f.generate m.symbolTable typed.types m.constantScope = .ok g ∧
      f.frame m.symbolTable typed.types m.constantScope = .ok frame ∧
      f.Linearized m.symbolTable typed.types m.constantScope frame (Stmt.callsAll f.body) lines ∧
      C.Stmt.callsAll g.body = lines.map CallLine.call ∧
      ∀ n : CallNode NodeId, n.expr ∈ f.values → ∃ l ∈ lines, ∃ s type tmp, l.node = n ∧
        (∀ s', f.Means m.symbolTable typed.types m.constantScope n s' ↔ s' = s) ∧
        s.result = some type ∧ ⟨tmp, type⟩ ∈ g.locals ∧
        l.call = (Frame.calledName n.callee s, .addressOf tmp :: l.inputs) := by
  obtain ⟨typed, htyped, hgenerate⟩ := Module.compile_eq_ok.mp h
  have hgenerates := Module.generates_of_generate htyped hgenerate
  obtain ⟨hfunction, hshown⟩ := Module.mem_generatedFunctions.mp hf
  obtain ⟨_, g, hg, hgenerated⟩ := hgenerates.function_mem f hfunction hshown
  obtain ⟨frame, body, hframe, hbody, rfl⟩ := FunctionDecl.generate_eq_ok hgenerated
  have hbodyIds := Module.nodup_idsAll hids hfunction
  obtain ⟨lines, hlines, hcalls⟩ :=
    FunctionDecl.exists_linearized_of_lowerAll hbodyIds hframe hbody
  refine ⟨typed, _, frame, lines, htyped, hg, hgenerated, hframe, hlines, hcalls, ?_⟩
  exact fun n hn => hlines.exists_line_of_mem_values hbodyIds hframe hbody hn

theorem countUp_value_calls_have_results :
    counting.ids.Nodup ∧ countUp ∈ counting.generatedFunctions ∧
      ∃ program typed g, ∃ lines : List CallLine, counting.compile = .ok program ∧
        counting.typed counting.symbolTable = .ok typed ∧ g ∈ program.functions ∧
        countUp.generate counting.symbolTable typed.types counting.constantScope = .ok g ∧
        C.Stmt.callsAll g.body = lines.map CallLine.call ∧
        ∃ l ∈ lines, ∃ s type tmp, l.node.id = 5 ∧ s.result = some type ∧
          ⟨tmp, type⟩ ∈ g.locals ∧
          l.call = (Frame.calledName (.name 2 "minusInt") s, .addressOf tmp :: l.inputs) := by
  have hids : counting.ids.Nodup := by decide +kernel
  have hf : countUp ∈ counting.generatedFunctions :=
    Module.mem_generatedFunctions.mpr ⟨List.mem_cons_self, by decide +kernel⟩
  obtain ⟨program, hcompile⟩ := counting_compiles
  obtain ⟨typed, g, _, lines, htyped, hg, hgenerated, _, _, hcalls, hvalues⟩ :=
    Module.value_calls_have_results hids hcompile hf
  -- an argument of the first call of `plusInt`
  let n : CallNode NodeId := ⟨5, .name 2 "minusInt", [.literal 3 (.int 2), .name 4 "a"]⟩
  have hn : n.expr ∈ countUp.values := by
    simp [n, CallNode.expr, FunctionDecl.values, FunctionDecl.exprs, countUp, Stmt.partsAll,
      Stmt.parts, Stmt.exprs, Expr.parts, Expr.partsAll, Expr.args]
  obtain ⟨l, hl, s, type, tmp, hnode, _, hresult, hlocal, hcall⟩ := hvalues n hn
  exact ⟨hids, hf, program, typed, g, lines, hcompile, htyped, hg, hgenerated, hcalls, l, hl, s,
    type, tmp, hnode ▸ rfl, hresult, hlocal, hcall⟩

end Mis
