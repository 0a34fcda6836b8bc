import Mis.Proofs.Numbering
import Mis.Proofs.Parts

/-!
The order of calls. Lowering makes one line of code of every call in an
expression, those of the arguments first and from left to right. A line passes
the address of the temporary that the call owns, if its function has a result,
and then an operand for each argument, so what it reads from a temporary was put
there by a line before it.
-/
namespace Mis

section Nodes

variable {ι : Type}

structure CallNode (ι : Type) where
  id : ι
  callee : Expr ι
  args : List (Expr ι)

def CallNode.expr (n : CallNode ι) : Expr ι :=
  .call n.id n.callee n.args

mutual

/-- The calls in an expression, each behind those in its callee and in its arguments. -/
def Expr.calls : Expr ι → List (CallNode ι)
  | .literal _ _ | .name _ _ => []
  | .call i callee args => Expr.calls callee ++ Expr.callsAll args ++ [⟨i, callee, args⟩]

def Expr.callsAll : List (Expr ι) → List (CallNode ι)
  | [] => []
  | e :: es => Expr.calls e ++ Expr.callsAll es

end

mutual

/-- The calls in a statement, in the order in which it needs them. -/
def Stmt.calls : Stmt ι → List (CallNode ι)
  | .declare _ _ _ e | .assign _ _ e | .call _ e | .leave _ (some e) => e.calls
  | .branch _ c yes none => c.calls ++ Stmt.callsAll yes
  | .branch _ c yes (some no) => c.calls ++ Stmt.callsAll yes ++ Stmt.callsAll no
  | .loop _ c body => c.calls ++ Stmt.callsAll body
  | .leave _ none => []

def Stmt.callsAll : List (Stmt ι) → List (CallNode ι)
  | [] => []
  | s :: ss => Stmt.calls s ++ Stmt.callsAll ss

end

/-! Calls and the tree they stand in. -/

theorem CallNode.expr_eq_call {n : CallNode ι} {i : ι} {callee : Expr ι} {args : List (Expr ι)} :
    n.expr = .call i callee args ↔ n = ⟨i, callee, args⟩ := by
  cases n
  simp [CallNode.expr]

mutual

theorem Expr.mem_calls {n : CallNode ι} : ∀ e : Expr ι, n ∈ e.calls ↔ n.expr ∈ e.parts
  | .literal _ _ | .name _ _ => by simp [Expr.calls, Expr.parts, CallNode.expr]
  | .call i callee args => by
      simp only [Expr.calls, Expr.parts, List.mem_append, List.mem_cons, List.not_mem_nil, or_false,
        CallNode.expr_eq_call, Expr.mem_calls callee, Expr.mem_callsAll args]
      exact or_comm

theorem Expr.mem_callsAll {n : CallNode ι} :
    ∀ es : List (Expr ι), n ∈ Expr.callsAll es ↔ n.expr ∈ Expr.partsAll es
  | [] => by simp [Expr.callsAll, Expr.partsAll]
  | e :: es => by
      simp only [Expr.callsAll, Expr.partsAll, List.mem_append, Expr.mem_calls e,
        Expr.mem_callsAll es]

end

mutual

theorem Stmt.mem_calls {n : CallNode ι} :
    ∀ s : Stmt ι, n ∈ s.calls ↔ ∃ r ∈ s.parts, ∃ e ∈ r.exprs, n ∈ e.calls
  | .declare _ _ _ e | .assign _ _ e | .call _ e | .leave _ (some e) | .leave _ none => by
      simp [Stmt.calls, Stmt.parts, Stmt.exprs]
  | .branch _ c yes none => by
      simp [Stmt.calls, Stmt.parts, Stmt.exprs, Stmt.mem_callsAll yes]
  | .branch _ c yes (some no) => by
      simp [Stmt.calls, Stmt.parts, Stmt.exprs, Stmt.mem_callsAll yes, Stmt.mem_callsAll no,
        or_and_right, exists_or]
  | .loop _ c body => by
      simp [Stmt.calls, Stmt.parts, Stmt.exprs, Stmt.mem_callsAll body]

theorem Stmt.mem_callsAll {n : CallNode ι} :
    ∀ ss : List (Stmt ι), n ∈ Stmt.callsAll ss ↔ ∃ r ∈ Stmt.partsAll ss, ∃ e ∈ r.exprs, n ∈ e.calls
  | [] => by simp [Stmt.callsAll, Stmt.partsAll]
  | s :: ss => by
      simp only [Stmt.callsAll, Stmt.partsAll, List.mem_append, Stmt.mem_calls s,
        Stmt.mem_callsAll ss, or_and_right, exists_or]

end

/-- The calls of a body are the expressions in it that are calls. -/
theorem FunctionDecl.mem_calls {f : FunctionDecl ι} {n : CallNode ι} :
    n ∈ Stmt.callsAll f.body ↔ n.expr ∈ f.exprs := by
  simp only [Stmt.mem_callsAll, FunctionDecl.mem_exprs, Expr.mem_calls]

theorem FunctionDecl.mem_calls_of_mem_exprs {f : FunctionDecl ι} {e : Expr ι} {n : CallNode ι}
    (he : e ∈ f.exprs) (hn : n ∈ e.calls) : n ∈ Stmt.callsAll f.body := by
  obtain ⟨s, hs, r, hr, he⟩ := FunctionDecl.mem_exprs.mp he
  exact FunctionDecl.mem_calls.mpr (FunctionDecl.mem_exprs.mpr
    ⟨s, hs, r, hr, Expr.mem_parts_trans ((Expr.mem_calls e).mp hn) r he⟩)

mutual

theorem Expr.map_id_calls : ∀ e : Expr ι, (e.calls.map (·.id)).Sublist e.postOrder
  | .literal _ _ | .name _ _ => List.nil_sublist _
  | .call i callee args => by
      rw [Expr.calls, Expr.postOrder, List.map_append, List.map_append]
      exact ((Expr.map_id_calls callee).append (Expr.map_id_callsAll args)).append
        (List.Sublist.refl _)

theorem Expr.map_id_callsAll :
    ∀ es : List (Expr ι), ((Expr.callsAll es).map (·.id)).Sublist (Expr.postOrderAll es)
  | [] => List.Sublist.refl _
  | e :: es => by
      rw [Expr.callsAll, Expr.postOrderAll, List.map_append]
      exact (Expr.map_id_calls e).append (Expr.map_id_callsAll es)

end

mutual

theorem Stmt.map_id_calls : ∀ s : Stmt ι, (s.calls.map (·.id)).Sublist s.postOrder
  | .declare _ _ _ e | .assign _ _ e | .call _ e | .leave _ (some e) =>
      e.map_id_calls.trans (List.sublist_append_left _ _)
  | .branch _ c yes none => by
      rw [Stmt.calls, List.map_append, Stmt.postOrder]
      exact (c.map_id_calls.append (Stmt.map_id_callsAll yes)).trans (List.sublist_append_left _ _)
  | .branch _ c yes (some no) => by
      rw [Stmt.calls, List.map_append, List.map_append, Stmt.postOrder]
      exact ((c.map_id_calls.append (Stmt.map_id_callsAll yes)).append
        (Stmt.map_id_callsAll no)).trans (List.sublist_append_left _ _)
  | .loop _ c body => by
      rw [Stmt.calls, List.map_append, Stmt.postOrder]
      exact (c.map_id_calls.append (Stmt.map_id_callsAll body)).trans (List.sublist_append_left _ _)
  | .leave _ none => List.nil_sublist _

theorem Stmt.map_id_callsAll :
    ∀ ss : List (Stmt ι), ((Stmt.callsAll ss).map (·.id)).Sublist (Stmt.postOrderAll ss)
  | [] => List.Sublist.refl _
  | s :: ss => by
      rw [Stmt.callsAll, Stmt.postOrderAll, List.map_append]
      exact (Stmt.map_id_calls s).append (Stmt.map_id_callsAll ss)

end

theorem Stmt.nodup_calls {ss : List (Stmt ι)} (hids : (Stmt.idsAll ss).Nodup) :
    ((Stmt.callsAll ss).map (·.id)).Nodup :=
  (Stmt.map_id_callsAll ss).nodup ((Stmt.perm_postOrderAll ss).nodup_iff.mpr hids)

/-- Every call stands behind the calls among its arguments. -/
def ArgumentsFirst (nodes : List (CallNode ι)) : Prop :=
  ∀ i n, nodes[i]? = some n → ∀ a : CallNode ι, a.expr ∈ n.args → a ∈ nodes.take i

namespace ArgumentsFirst

variable {nodes more : List (CallNode ι)}

theorem nil : ArgumentsFirst ([] : List (CallNode ι)) := by
  intro i n hn
  cases hn

/-- The arguments of later calls may stand in front. -/
theorem append_of (h : ArgumentsFirst nodes)
    (h' : ∀ i n, more[i]? = some n → ∀ a : CallNode ι, a.expr ∈ n.args →
      a ∈ nodes ++ more.take i) : ArgumentsFirst (nodes ++ more) := by
  intro i n hn a ha
  rw [List.take_append]
  by_cases hi : i < nodes.length
  · rw [List.getElem?_append_left hi] at hn
    exact List.mem_append_left _ (h i n hn a ha)
  · rw [List.getElem?_append_right (by omega)] at hn
    rw [List.take_of_length_le (by omega)]
    exact h' _ n hn a ha

theorem append (h : ArgumentsFirst nodes) (h' : ArgumentsFirst more) :
    ArgumentsFirst (nodes ++ more) :=
  h.append_of fun i n hn a ha => List.mem_append_right _ (h' i n hn a ha)

theorem concat {n : CallNode ι} (h : ArgumentsFirst nodes)
    (hn : ∀ a : CallNode ι, a.expr ∈ n.args → a ∈ nodes) : ArgumentsFirst (nodes ++ [n]) := by
  refine h.append_of ?_
  intro i m hm a ha
  rw [List.mem_singleton.mp (List.mem_of_getElem? hm)] at ha
  exact List.mem_append_left _ (hn a ha)

end ArgumentsFirst

mutual

theorem Expr.argumentsFirst_calls : ∀ e : Expr ι, ArgumentsFirst e.calls
  | .literal _ _ | .name _ _ => .nil
  | .call i callee args => by
      refine ((Expr.argumentsFirst_calls callee).append
        (Expr.argumentsFirst_callsAll args)).concat ?_
      intro a ha
      refine List.mem_append_right _ ((Expr.mem_callsAll args).mpr ?_)
      exact Expr.mem_partsAll.mpr ⟨a.expr, ha, a.expr.self_mem_parts⟩

theorem Expr.argumentsFirst_callsAll : ∀ es : List (Expr ι), ArgumentsFirst (Expr.callsAll es)
  | [] => .nil
  | e :: es => (Expr.argumentsFirst_calls e).append (Expr.argumentsFirst_callsAll es)

end

mutual

theorem Stmt.argumentsFirst_calls : ∀ s : Stmt ι, ArgumentsFirst s.calls
  | .declare _ _ _ e | .assign _ _ e | .call _ e | .leave _ (some e) => e.argumentsFirst_calls
  | .branch _ c yes none => c.argumentsFirst_calls.append (Stmt.argumentsFirst_callsAll yes)
  | .branch _ c yes (some no) =>
      (c.argumentsFirst_calls.append (Stmt.argumentsFirst_callsAll yes)).append
        (Stmt.argumentsFirst_callsAll no)
  | .loop _ c body => c.argumentsFirst_calls.append (Stmt.argumentsFirst_callsAll body)
  | .leave _ none => .nil

theorem Stmt.argumentsFirst_callsAll : ∀ ss : List (Stmt ι), ArgumentsFirst (Stmt.callsAll ss)
  | [] => .nil
  | s :: ss => (Stmt.argumentsFirst_calls s).append (Stmt.argumentsFirst_callsAll ss)

end

end Nodes

/-! Lines. -/

/-- A call in C, taken apart: the call of the source that it is made of, the function it goes to,
the temporary for the result and the operands for the arguments. -/
structure CallLine where
  node : CallNode NodeId
  name : String
  result : Option String
  inputs : List C.Operand

namespace CallLine

def operands (l : CallLine) : List C.Operand :=
  (l.result.map C.Operand.addressOf).toList ++ l.inputs

def stmt (l : CallLine) : C.Stmt :=
  .call l.name l.operands

def call (l : CallLine) : String × List C.Operand :=
  (l.name, l.operands)

theorem callsAll_map_stmt (lines : List CallLine) :
    C.Stmt.callsAll (lines.map stmt) = lines.map call := by
  induction lines with
  | nil => rfl
  | cons l lines ih => simp only [List.map_cons, C.Stmt.callsAll, ih, stmt, C.Stmt.calls, call,
      List.singleton_append]

end CallLine

namespace Frame

/-- What lowering looks up in the frame for a line. -/
structure Lowers (frame : Frame) (l : CallLine) : Prop where
  name_eq : frame.calledNames.get? l.node.id = some l.name
  result_eq : l.result = frame.valueSlots.get? l.node.id
  inputs_eq : List.Forall₂ (fun a o => frame.addressOf a = .ok o) l.node.args l.inputs

/-- The lines are one for each of `nodes`, in the same order. -/
structure LowersAll (frame : Frame) (nodes : List (CallNode NodeId)) (lines : List CallLine) :
    Prop where
  nodes_eq : lines.map (·.node) = nodes
  lowers : ∀ l ∈ lines, frame.Lowers l

namespace LowersAll

variable {frame : Frame} {nodes more : List (CallNode NodeId)} {lines rest : List CallLine}

theorem nil (frame : Frame) : frame.LowersAll [] [] where
  nodes_eq := rfl
  lowers := fun _ hl => absurd hl List.not_mem_nil

theorem append (h : frame.LowersAll nodes lines) (h' : frame.LowersAll more rest) :
    frame.LowersAll (nodes ++ more) (lines ++ rest) where
  nodes_eq := by rw [List.map_append, h.nodes_eq, h'.nodes_eq]
  lowers := List.forall_mem_append.mpr ⟨h.lowers, h'.lowers⟩

theorem singleton {l : CallLine} (h : frame.Lowers l) : frame.LowersAll [l.node] [l] where
  nodes_eq := rfl
  lowers := List.forall_mem_singleton.mpr h

end LowersAll

end Frame

section Lowering

variable {frame : Frame}

def CallNode.CallsName (n : CallNode NodeId) : Prop :=
  ∃ i x, n.callee = .name i x

mutual

theorem Expr.exists_lines :
    ∀ (e : Expr NodeId) (out : List C.Stmt), e.lowerCalls frame = .ok out →
      (∀ n ∈ e.calls, n.CallsName) →
        ∃ lines, frame.LowersAll e.calls lines ∧ out = lines.map CallLine.stmt
  | .literal _ _, out, h, _ | .name _ _, out, h, _ => by
      cases h
      exact ⟨[], .nil frame, rfl⟩
  | .call i callee args, out, h, hnames => by
      obtain ⟨before, operands, name, hbefore, hoperands, hname, rfl⟩ :=
        Expr.lowerCalls_call_eq_ok h
      obtain ⟨hparts, hself⟩ := List.forall_mem_append.mp hnames
      -- a name holds no calls
      obtain ⟨j, x, rfl⟩ := hself _ (List.mem_singleton_self _)
      obtain ⟨lines, hlines, rfl⟩ := Expr.exists_linesAll args before hbefore hparts
      let line : CallLine := ⟨⟨i, .name j x, args⟩, name, frame.valueSlots.get? i, operands⟩
      have hline : frame.Lowers line := ⟨hname, rfl, hoperands⟩
      refine ⟨lines ++ [line], hlines.append (.singleton hline), ?_⟩
      rw [List.map_append]
      rfl

theorem Expr.exists_linesAll :
    ∀ (es : List (Expr NodeId)) (out : List C.Stmt), Expr.lowerCallsAll frame es = .ok out →
      (∀ n ∈ Expr.callsAll es, n.CallsName) →
        ∃ lines, frame.LowersAll (Expr.callsAll es) lines ∧ out = lines.map CallLine.stmt
  | [], out, h, _ => by
      cases h
      exact ⟨[], .nil frame, rfl⟩
  | e :: es, out, h, hnames => by
      obtain ⟨first, more, hfirst, hmore, rfl⟩ := Expr.lowerCallsAll_cons_eq_ok h
      obtain ⟨he, hes⟩ := List.forall_mem_append.mp hnames
      obtain ⟨lines, hlines, rfl⟩ := Expr.exists_lines e first hfirst he
      obtain ⟨rest, hrest, rfl⟩ := Expr.exists_linesAll es more hmore hes
      exact ⟨lines ++ rest, hlines.append hrest, List.map_append.symm⟩

end

/-- The calls in `out` are those that the lines of `nodes` make. -/
def Frame.MakesCalls (frame : Frame) (nodes : List (CallNode NodeId)) (out : List C.Stmt) : Prop :=
  ∃ lines, frame.LowersAll nodes lines ∧ C.Stmt.callsAll out = lines.map CallLine.call

theorem Frame.MakesCalls.append {nodes more : List (CallNode NodeId)} {out rest : List C.Stmt}
    (h : frame.MakesCalls nodes out) (h' : frame.MakesCalls more rest) :
    frame.MakesCalls (nodes ++ more) (out ++ rest) := by
  obtain ⟨lines, hlines, hout⟩ := h
  obtain ⟨lines', hlines', hrest⟩ := h'
  refine ⟨lines ++ lines', hlines.append hlines', ?_⟩
  rw [C.Stmt.callsAll_append, hout, hrest, List.map_append]

theorem Frame.MakesCalls.congr {nodes : List (CallNode NodeId)} {out rest : List C.Stmt}
    (h : frame.MakesCalls nodes out) (heq : C.Stmt.callsAll rest = C.Stmt.callsAll out) :
    frame.MakesCalls nodes rest := by
  obtain ⟨lines, hlines, hout⟩ := h
  exact ⟨lines, hlines, heq.trans hout⟩

theorem Frame.MakesCalls.append_silent {nodes : List (CallNode NodeId)} {out rest : List C.Stmt}
    (h : frame.MakesCalls nodes out) (hrest : C.Stmt.callsAll rest = []) :
    frame.MakesCalls nodes (out ++ rest) := by
  refine h.congr ?_
  rw [C.Stmt.callsAll_append, hrest, List.append_nil]

theorem Expr.makesCalls {e : Expr NodeId} {out : List C.Stmt} (h : e.lowerCalls frame = .ok out)
    (hnames : ∀ n ∈ e.calls, n.CallsName) : frame.MakesCalls e.calls out := by
  obtain ⟨lines, hlines, rfl⟩ := Expr.exists_lines e out h hnames
  exact ⟨lines, hlines, CallLine.callsAll_map_stmt lines⟩

mutual

theorem Stmt.makesCalls :
    ∀ (s : Stmt NodeId) (out : List C.Stmt), s.lower frame = .ok out →
      (∀ n ∈ s.calls, n.CallsName) → frame.MakesCalls s.calls out
  | .declare _ _ _ _, out, h, hnames => by
      cases Stmt.lowersTo_of_lower h with
      | declare hcalls _ _ => exact (Expr.makesCalls hcalls hnames).append_silent rfl
  | .assign _ _ _, out, h, hnames => by
      cases Stmt.lowersTo_of_lower h with
      | assign hcalls _ => exact (Expr.makesCalls hcalls hnames).append_silent rfl
  | .branch _ _ yes none, out, h, hnames => by
      obtain ⟨hc, hyesNames⟩ := List.forall_mem_append.mp hnames
      cases Stmt.lowersTo_of_lower h with
      | branch hcalls _ hyes =>
          refine ((Expr.makesCalls hcalls hc).append
            (Stmt.makesCallsAll yes _ hyes hyesNames)).congr ?_
          simp [C.Stmt.callsAll_append, C.Stmt.callsAll, C.Stmt.calls]
  | .branch _ _ yes (some no), out, h, hnames => by
      obtain ⟨hnames, hnoNames⟩ := List.forall_mem_append.mp hnames
      obtain ⟨hc, hyesNames⟩ := List.forall_mem_append.mp hnames
      cases Stmt.lowersTo_of_lower h with
      | branchElse hcalls _ hyes hno =>
          refine (((Expr.makesCalls hcalls hc).append
            (Stmt.makesCallsAll yes _ hyes hyesNames)).append
              (Stmt.makesCallsAll no _ hno hnoNames)).congr ?_
          simp [C.Stmt.callsAll_append, C.Stmt.callsAll, C.Stmt.calls]
  | .loop _ _ body, out, h, hnames => by
      obtain ⟨hc, hbodyNames⟩ := List.forall_mem_append.mp hnames
      cases Stmt.lowersTo_of_lower h with
      | loop hcalls _ hbody =>
          refine ((Expr.makesCalls hcalls hc).append
            (Stmt.makesCallsAll body _ hbody hbodyNames)).congr ?_
          simp [C.Stmt.callsAll_append, C.Stmt.callsAll, C.Stmt.calls]
  | .leave _ none, out, h, _ => by
      cases h
      exact ⟨[], .nil frame, rfl⟩
  | .leave _ (some _), out, h, hnames => by
      cases Stmt.lowersTo_of_lower h with
      | leaveWith _ hcalls _ => exact (Expr.makesCalls hcalls hnames).append_silent rfl
  | .call _ _, out, h, hnames => Expr.makesCalls h hnames

theorem Stmt.makesCallsAll :
    ∀ (ss : List (Stmt NodeId)) (out : List C.Stmt), Stmt.lowerAll frame ss = .ok out →
      (∀ n ∈ Stmt.callsAll ss, n.CallsName) → frame.MakesCalls (Stmt.callsAll ss) out
  | [], out, h, _ => by
      cases h
      exact ⟨[], .nil frame, rfl⟩
  | s :: ss, out, h, hnames => by
      obtain ⟨first, more, hfirst, hmore, rfl⟩ := Stmt.lowerAll_cons_eq_ok h
      obtain ⟨hs, hss⟩ := List.forall_mem_append.mp hnames
      exact (Stmt.makesCalls s first hfirst hs).append (Stmt.makesCallsAll ss more hmore hss)

end

end Lowering

/-! What the frame has for a line. -/

namespace Frame.Numbered

variable {t : SymbolTable} {vs : List Visit} {frame : Frame}

/-- The slot of a call is a temporary of the type that its symbol has. -/
theorem temp_of_call (h : Numbered t vs frame) (hids : (slotIds vs).Nodup) {σ : Scope}
    {id : NodeId} {callee : Expr NodeId} {args : List (Expr NodeId)} {s : Symbol} {c : String}
    (hv : ⟨σ, .call id callee args⟩ ∈ vs) (hs : calledSymbol t σ callee args = .ok s)
    (hslot : frame.valueSlots.get? id = some c) :
    ∃ type, s.result = some type ∧ ⟨c, type, none⟩ ∈ frame.temps := by
  have hsome := h.isSome_slot_of_call hids hv hs
  rw [hslot] at hsome
  obtain ⟨type, htype⟩ := Option.isSome_iff_exists.mp hsome.symm
  have hmem : (.call id callee args, type) ∈ temporaries t vs :=
    List.mem_filterMap.mpr ⟨_, hv, by simp [Visit.temporary?, hs, Except.toOption, htype]⟩
  obtain ⟨j, hj⟩ := List.getElem?_of_mem hmem
  have hvalue := (h.value_iff id (tempName j)).mpr
    (.inr ⟨callee, args, mem_tempEntries.mpr ⟨j, type, hj, rfl⟩⟩)
  rw [hslot] at hvalue
  cases hvalue
  obtain ⟨hlt, hj⟩ := List.getElem?_eq_some_iff.mp hj
  refine ⟨type, htype, ?_⟩
  rw [h.temps_eq]
  exact List.mem_mapIdx.mpr ⟨j, hlt, by rw [hj]⟩

/-- The slot of a literal is a constant that starts with it. -/
theorem const_of_literal (h : Numbered t vs frame) {σ : Scope} {id : NodeId} {value : Literal}
    {c : String} (hv : ⟨σ, .literal id value⟩ ∈ vs)
    (hslot : frame.valueSlots.get? id = some c) :
    ⟨c, value.type, some value⟩ ∈ frame.consts := by
  have hmem : (id, value) ∈ literals vs := List.mem_filterMap.mpr ⟨_, hv, rfl⟩
  obtain ⟨i, hi⟩ := List.getElem?_of_mem hmem
  have hvalue := (h.value_iff id (constName i)).mpr
    (.inl (mem_constEntries.mpr ⟨i, value, hi, rfl⟩))
  rw [hslot] at hvalue
  cases hvalue
  obtain ⟨hlt, hi⟩ := List.getElem?_eq_some_iff.mp hi
  rw [h.consts_eq]
  exact List.mem_mapIdx.mpr ⟨i, hlt, by rw [hi]⟩

theorem temp_ne_const (h : Numbered t vs frame) {temp const : Slot} (htemp : temp ∈ frame.temps)
    (hconst : const ∈ frame.consts) : temp.name ≠ const.name := by
  rw [h.temps_eq, List.mem_mapIdx] at htemp
  rw [h.consts_eq, List.mem_mapIdx] at hconst
  obtain ⟨j, _, rfl⟩ := htemp
  obtain ⟨i, _, rfl⟩ := hconst
  exact tempName_ne_constName j i

end Frame.Numbered

/-- What a call passes for an argument: the constant of a literal, the pointer that a name is,
or the temporary of a call. -/
def Frame.Passes (frame : Frame) (a : Expr NodeId) (o : C.Operand) : Prop :=
  match a with
  | .literal id value => ∃ c, o = .addressOf c ∧ frame.valueSlots.get? id = some c ∧
      ⟨c, value.type, some value⟩ ∈ frame.consts
  | .name _ x => o = .name x
  | .call id _ _ => ∃ c, o = .addressOf c ∧ frame.valueSlots.get? id = some c ∧
      c ∈ frame.temps.map (·.name)

theorem Demand.eq_call_of_site? {t : SymbolTable} {types : Table NodeId Ty} {σ : Scope}
    {d : Demand} {id : NodeId} {callee : Expr NodeId} {args : List (Expr NodeId)}
    (h : d.site? t types σ = some (.call id callee args)) : d = .call id callee args := by
  cases d with
  | call _ _ _ =>
      cases h
      rfl
  | declare _ _ _ | ownSlot _ _ | constant _ _ | visible _ => cases h

namespace FunctionDecl

variable {t : SymbolTable} {types : Table NodeId Ty} {globals : Scope} {f : FunctionDecl NodeId}
  {frame : Frame}

/-- The symbol that a call means where generation comes to it. -/
def Means (t : SymbolTable) (types : Table NodeId Ty) (globals : Scope) (f : FunctionDecl NodeId)
    (n : CallNode NodeId) (s : Symbol) : Prop :=
  ∃ before, ComesTo (Frame.meet t types) (Frame.start globals f) (Stmt.demandsAll f.body)
      (.call n.id n.callee n.args) before ∧
    calledSymbol t before.scope n.callee n.args = .ok s

theorem means_iff (h : f.frame t types globals = .ok frame) {n : CallNode NodeId} {s : Symbol} :
    f.Means t types globals n s ↔
      ∃ σ, ⟨σ, .call n.id n.callee n.args⟩ ∈ f.visits t types globals ∧
        calledSymbol t σ n.callee n.args = .ok s := by
  constructor
  · intro hmeans
    obtain ⟨before, hcomes, hs⟩ := hmeans
    exact ⟨before.scope, visit_of_comesTo hcomes rfl, hs⟩
  · intro hvisit
    obtain ⟨σ, hv, hs⟩ := hvisit
    obtain ⟨d, before, _, hcomes, hscope, hsite, _⟩ := comesTo_of_visit h hv
    rw [Demand.eq_call_of_site? hsite] at hcomes
    exact ⟨before, hcomes, hscope ▸ hs⟩

theorem exists_visit_of_mem_calls (h : f.frame t types globals = .ok frame)
    {n : CallNode NodeId} (hn : n ∈ Stmt.callsAll f.body) :
    ∃ σ, ⟨σ, .call n.id n.callee n.args⟩ ∈ f.visits t types globals := by
  obtain ⟨σ, hσ⟩ := exists_visits_of_mem_exprs h (mem_calls.mp hn)
  exact ⟨σ, hσ _ List.mem_cons_self⟩

theorem callsName_of_mem_calls (h : f.frame t types globals = .ok frame) {n : CallNode NodeId}
    (hn : n ∈ Stmt.callsAll f.body) : n.CallsName := by
  obtain ⟨σ, hv⟩ := exists_visit_of_mem_calls h hn
  exact ((framed_of_frame h).granted _ hv).exists_name

/-- With distinct labels every call means one symbol. -/
theorem existsUnique_means (hids : (Stmt.idsAll f.body).Nodup)
    (h : f.frame t types globals = .ok frame) {n : CallNode NodeId}
    (hn : n ∈ Stmt.callsAll f.body) :
    ∃ s, f.Means t types globals n s ∧ ∀ s', f.Means t types globals n s' → s' = s := by
  obtain ⟨σ, hv⟩ := exists_visit_of_mem_calls h hn
  obtain ⟨s, hs⟩ := (framed_of_frame h).granted _ hv
  refine ⟨s, (means_iff h).mpr ⟨σ, hv, hs⟩, ?_⟩
  intro s' hmeans
  obtain ⟨σ', hv', hs'⟩ := (means_iff h).mp hmeans
  cases eq_of_id? (nodup_slotIds hids) hv' hv rfl rfl
  exact Except.ok.inj (hs'.symm.trans hs)

theorem passes_of_addressOf (hids : (Stmt.idsAll f.body).Nodup)
    (h : f.frame t types globals = .ok frame) {a : Expr NodeId} (ha : a ∈ f.exprs)
    {o : C.Operand} (ho : frame.addressOf a = .ok o) : frame.Passes a o := by
  have hnumbered := numbered_of_frame hids h
  obtain ⟨σ, hσ⟩ := exists_visits_of_mem_exprs h ha
  cases a with
  | name _ x =>
      cases ho
      rfl
  | literal id value =>
      obtain ⟨c, hc, ho⟩ := bind_eq_ok.mp ho
      cases ho
      have hslot := Frame.hasSlot_of_slotOf hc
      exact ⟨c, rfl, hslot, hnumbered.const_of_literal (hσ _ List.mem_cons_self) hslot⟩
  | call id callee args =>
      obtain ⟨c, hc, ho⟩ := bind_eq_ok.mp ho
      cases ho
      have hslot := Frame.hasSlot_of_slotOf hc
      have hv := hσ _ List.mem_cons_self
      obtain ⟨s, hs⟩ := (framed_of_frame h).granted _ hv
      obtain ⟨type, _, htemp⟩ := hnumbered.temp_of_call (nodup_slotIds hids) hv hs hslot
      exact ⟨c, rfl, hslot, List.mem_map_of_mem htemp⟩

/-- The line goes to the function that its call means, and has a temporary for the result exactly
if that function has one. -/
def Realizes (t : SymbolTable) (types : Table NodeId Ty) (globals : Scope)
    (f : FunctionDecl NodeId) (frame : Frame) (l : CallLine) : Prop :=
  ∃ s, f.Means t types globals l.node s ∧ l.name = Frame.calledName l.node.callee s ∧
    (s.result = none ∧ l.result = none ∨
      ∃ type c, s.result = some type ∧ l.result = some c ∧ ⟨c, type, none⟩ ∈ frame.temps)

/-- The lines are the calls `nodes`, one for each and in their order. The temporaries that a line
passes for its arguments are out-parameters of lines before it. -/
structure Linearized (t : SymbolTable) (types : Table NodeId Ty) (globals : Scope)
    (f : FunctionDecl NodeId) (frame : Frame) (nodes : List (CallNode NodeId))
    (lines : List CallLine) : Prop where
  nodes_eq : lines.map (·.node) = nodes
  name_eq : ∀ l ∈ lines, frame.calledNames.get? l.node.id = some l.name
  result_eq : ∀ l ∈ lines, l.result = frame.valueSlots.get? l.node.id
  realizes : ∀ l ∈ lines, f.Realizes t types globals frame l
  passes : ∀ l ∈ lines, List.Forall₂ frame.Passes l.node.args l.inputs
  input_earlier : ∀ i l, lines[i]? = some l → ∀ c ∈ frame.temps.map (·.name),
    .addressOf c ∈ l.inputs → ∃ l' ∈ lines.take i, l'.result = some c

theorem realizes_of_lowers (hids : (Stmt.idsAll f.body).Nodup)
    (h : f.frame t types globals = .ok frame) {l : CallLine} (hl : frame.Lowers l)
    (hn : l.node ∈ Stmt.callsAll f.body) : f.Realizes t types globals frame l := by
  have hnumbered := numbered_of_frame hids h
  obtain ⟨σ, hv⟩ := exists_visit_of_mem_calls h hn
  obtain ⟨s, hs⟩ := (framed_of_frame h).granted _ hv
  refine ⟨s, (means_iff h).mpr ⟨σ, hv, hs⟩, ?_, ?_⟩
  · have hname := hnumbered.called_of_mem hv hs
    rw [hl.name_eq] at hname
    exact Option.some.inj hname
  · have hsome := hnumbered.isSome_slot_of_call (nodup_slotIds hids) hv hs
    cases hslot : frame.valueSlots.get? l.node.id with
    | none =>
        rw [hslot] at hsome
        refine .inl ⟨?_, hl.result_eq.trans hslot⟩
        exact Option.not_isSome_iff_eq_none.mp (by simp [← hsome])
    | some c =>
        obtain ⟨type, hresult, htemp⟩ := hnumbered.temp_of_call (nodup_slotIds hids) hv hs hslot
        exact .inr ⟨type, c, hresult, hl.result_eq.trans hslot, htemp⟩

theorem passes_of_lowers (hids : (Stmt.idsAll f.body).Nodup)
    (h : f.frame t types globals = .ok frame) {l : CallLine} (hl : frame.Lowers l)
    (hn : l.node ∈ Stmt.callsAll f.body) : List.Forall₂ frame.Passes l.node.args l.inputs := by
  have hargs : ∀ a ∈ l.node.args, a ∈ f.exprs := fun a ha =>
    mem_exprs_of_mem_args (mem_calls.mp hn) ha
  refine ((List.forall₂_and_left _ _).mpr ⟨hargs, hl.inputs_eq⟩).imp ?_
  exact fun a o hao => passes_of_addressOf hids h hao.1 hao.2

/-- Lines of calls in dependency order are linearized. -/
theorem linearized_of_lowersAll (hids : (Stmt.idsAll f.body).Nodup)
    (h : f.frame t types globals = .ok frame) {nodes : List (CallNode NodeId)}
    {lines : List CallLine} (hlines : frame.LowersAll nodes lines)
    (hnodes : ∀ n ∈ nodes, n ∈ Stmt.callsAll f.body) (hfirst : ArgumentsFirst nodes) :
    f.Linearized t types globals frame nodes lines := by
  have hmem : ∀ l ∈ lines, l.node ∈ Stmt.callsAll f.body := by
    intro l hl
    exact hnodes _ (hlines.nodes_eq ▸ List.mem_map_of_mem hl)
  refine {
    nodes_eq := hlines.nodes_eq
    name_eq := fun l hl => (hlines.lowers l hl).name_eq
    result_eq := fun l hl => (hlines.lowers l hl).result_eq
    realizes := fun l hl => realizes_of_lowers hids h (hlines.lowers l hl) (hmem l hl)
    passes := fun l hl => passes_of_lowers hids h (hlines.lowers l hl) (hmem l hl)
    input_earlier := ?_ }
  intro i l hget c hc hinput
  have hl := List.mem_of_getElem? hget
  obtain ⟨a, ha, hpasses⟩ := exists_of_forall₂_right
    (passes_of_lowers hids h (hlines.lowers l hl) (hmem l hl)) hinput
  cases a with
  | name _ _ => cases hpasses
  | literal id value =>
      -- constants have other names
      obtain ⟨_, ho, _, hconst⟩ := hpasses
      cases ho
      obtain ⟨temp, htemp, hname⟩ := List.mem_map.mp hc
      exact absurd hname ((numbered_of_frame hids h).temp_ne_const htemp hconst)
  | call id callee args =>
      obtain ⟨_, ho, hslot, _⟩ := hpasses
      cases ho
      have hnode : nodes[i]? = some l.node := by
        rw [← hlines.nodes_eq, List.getElem?_map, hget]
        rfl
      have hbefore := hfirst i l.node hnode ⟨id, callee, args⟩ ha
      rw [← hlines.nodes_eq, ← List.map_take] at hbefore
      obtain ⟨l', hl', heq⟩ := List.mem_map.mp hbefore
      refine ⟨l', hl', ?_⟩
      rw [(hlines.lowers l' (List.mem_of_mem_take hl')).result_eq, heq]
      exact hslot

/-- The calls of an expression, as lowering makes them. -/
theorem exists_linearized_of_lowerCalls (hids : (Stmt.idsAll f.body).Nodup)
    (h : f.frame t types globals = .ok frame) {e : Expr NodeId} (he : e ∈ f.exprs)
    {out : List C.Stmt} (hout : e.lowerCalls frame = .ok out) :
    ∃ lines, f.Linearized t types globals frame e.calls lines ∧
      out = lines.map CallLine.stmt := by
  have hnodes : ∀ n ∈ e.calls, n ∈ Stmt.callsAll f.body := fun n hn =>
    mem_calls_of_mem_exprs he hn
  obtain ⟨lines, hlines, hout⟩ := Expr.exists_lines e out hout
    fun n hn => callsName_of_mem_calls h (hnodes n hn)
  exact ⟨lines, linearized_of_lowersAll hids h hlines hnodes e.argumentsFirst_calls, hout⟩

theorem exists_linearized_of_lowerAll (hids : (Stmt.idsAll f.body).Nodup)
    (h : f.frame t types globals = .ok frame) {out : List C.Stmt}
    (hout : Stmt.lowerAll frame f.body = .ok out) :
    ∃ lines, f.Linearized t types globals frame (Stmt.callsAll f.body) lines ∧
      C.Stmt.callsAll out = lines.map CallLine.call := by
  obtain ⟨lines, hlines, hout⟩ := Stmt.makesCallsAll f.body out hout
    fun n hn => callsName_of_mem_calls h hn
  refine ⟨lines, ?_, hout⟩
  exact linearized_of_lowersAll hids h hlines (fun _ hn => hn) (Stmt.argumentsFirst_callsAll f.body)

/-- A temporary is the out-parameter of one line. -/
theorem Linearized.countP_result {lines : List CallLine}
    (h : f.Linearized t types globals frame (Stmt.callsAll f.body) lines)
    (hids : (Stmt.idsAll f.body).Nodup) (hframe : f.frame t types globals = .ok frame)
    {n : CallNode NodeId} (hn : n ∈ Stmt.callsAll f.body) {c : String}
    (hslot : frame.valueSlots.get? n.id = some c) :
    lines.countP (·.result = some c) = 1 := by
  have hlabel : ∀ l ∈ lines, l.result = some c ↔ l.node.id = n.id := by
    intro l hl
    rw [h.result_eq l hl]
    constructor
    · exact fun hget => (numbered_of_frame hids hframe).slot_unshared (.inl hget) (.inl hslot)
    · exact fun heq => heq ▸ hslot
  have hnodup : (lines.map (·.node.id)).Nodup := by
    have hcalls := Stmt.nodup_calls hids
    rw [← h.nodes_eq, List.map_map] at hcalls
    exact hcalls
  have hmem : n.id ∈ lines.map (·.node.id) := by
    rw [← h.nodes_eq] at hn
    obtain ⟨l, hl, rfl⟩ := List.mem_map.mp hn
    exact List.mem_map_of_mem hl
  calc lines.countP (·.result = some c)
      = lines.countP (·.node.id = n.id) := by
        refine List.countP_congr fun l hl => ?_
        simp only [decide_eq_true_eq, hlabel l hl]
    _ = (lines.map (·.node.id)).count n.id := by
        rw [List.count, List.countP_map]
        rfl
    _ = 1 := List.count_eq_one_of_mem hnodup hmem

/-- The calls of a function are made in dependency order: those of one expression, and those of
the body at any depth, where each call has a temporary that no other call and no `::=` has. -/
theorem calls_linearized (hids : (Stmt.idsAll f.body).Nodup)
    (h : f.frame t types globals = .ok frame) :
    (∀ e ∈ f.exprs, ∀ out, e.lowerCalls frame = .ok out →
      ∃ lines, f.Linearized t types globals frame e.calls lines ∧
        out = lines.map CallLine.stmt) ∧
    ∀ out, Stmt.lowerAll frame f.body = .ok out →
      ∃ lines, f.Linearized t types globals frame (Stmt.callsAll f.body) lines ∧
        C.Stmt.callsAll out = lines.map CallLine.call ∧
        ∀ n ∈ Stmt.callsAll f.body, ∀ c, frame.valueSlots.get? n.id = some c →
          lines.countP (·.result = some c) = 1 ∧ ∀ id, frame.ownSlots.get? id ≠ some c := by
  refine ⟨fun e he out hout => exists_linearized_of_lowerCalls hids h he hout, ?_⟩
  intro out hout
  obtain ⟨lines, hlines, hcalls⟩ := exists_linearized_of_lowerAll hids h hout
  refine ⟨lines, hlines, hcalls, fun n hn c hslot => ⟨hlines.countP_result hids h hn hslot, ?_⟩⟩
  intro id hown
  have hnumbered := numbered_of_frame hids h
  have hsame := hnumbered.slot_unshared (.inr hown) (.inl hslot)
  rw [← hsame, hnumbered.valueSlots_of_ownSlots (nodup_slotIds hids) hown] at hslot
  cases hslot

end FunctionDecl

theorem countUp_calls_linearized :
    (Stmt.idsAll countUp.body).Nodup ∧
      (Stmt.callsAll countUp.body).map (·.id) = [5, 6, 11, 15, 21, 26] ∧
      ∃ frame out lines,
        countUp.frame counting.symbolTable countUpTypes counting.constantScope = .ok frame ∧
        Stmt.lowerAll frame countUp.body = .ok out ∧
        countUp.Linearized counting.symbolTable countUpTypes counting.constantScope frame
          (Stmt.callsAll countUp.body) lines ∧
        C.Stmt.callsAll out = lines.map CallLine.call := by
  have hids : (Stmt.idsAll countUp.body).Nodup := by decide
  obtain ⟨frame, hframe, hlower⟩ := exists_eq_ok_of_any
    (x := countUp.frame counting.symbolTable countUpTypes counting.constantScope)
    (p := fun frame => (Stmt.lowerAll frame countUp.body).toOption.isSome) (by decide +kernel)
  obtain ⟨out, hout⟩ := exists_eq_ok hlower
  obtain ⟨lines, hlines, hcalls, _⟩ := (FunctionDecl.calls_linearized hids hframe).2 out hout
  exact ⟨hids, by decide, frame, out, lines, hframe, hout, hlines, hcalls⟩

end Mis
