import Mis.Proofs.Printing
import Mis.Proofs.Program

/-!
Generated programs are closed over names. Every operand names a variable of its
function or a constant of the module, and every call goes to a function that is
there and takes as many arguments as the call gives.
-/
namespace Mis

/-- The C function behind a built-in. -/
def Symbol.opened (b : Symbol) : C.Prototype :=
  .make b.externalName b.result <|
    match b.params with
    | [t] => [⟨"value", t⟩]
    | [t, u] => [⟨"a", t⟩, ⟨"b", u⟩]
    | _ => []

theorem opened_of_mem_builtins : ∀ b ∈ builtins,
    b.opened.printable = true ∧ (b.opened.render ++ " \x7b") ∈ C.opening ∧
      b.opened.params.length = b.result.toList.length + b.params.length := by
  decide +kernel

namespace C

/-- There is a C function of this name with `n` parameters: a built-in, whose head stands in the
opening with one parameter for the result, if there is one, and one for each argument, or a
function that the program declares. -/
def Program.Provides (p : Program) (name : String) (n : Nat) : Prop :=
  (∃ b ∈ builtins, b.externalName = name ∧ n = b.result.toList.length + b.params.length ∧
    ∃ q : Prototype, q.printable = true ∧ q.name = name ∧ (q.render ++ " \x7b") ∈ opening ∧
      q.params.length = n) ∨
  ∃ q ∈ p.prototypes, q.name = name ∧ q.params.length = n

structure Program.Closed (p : Program) : Prop where
  prototypes_eq : p.prototypes = p.functions.map (·.prototype)
  name_bound : ∀ g ∈ p.functions, ∀ x ∈ Stmt.namesAll g.body,
    x ∈ g.locals.map (·.name) ∨ x ∈ g.prototype.params.map (·.name) ∨
      x ∈ p.globals.map (·.name)
  initial_local : ∀ g ∈ p.functions, ∀ c ∈ g.initials, c.1 ∈ g.locals.map (·.name)
  call_provided : ∀ g ∈ p.functions, ∀ c ∈ Stmt.callsAll g.body, p.Provides c.1 c.2.length
  entry_declared : ∃ q ∈ p.prototypes, q.name = p.entry.name ∧
    q.params = (p.entry.result.map fun t => (⟨resultParam, t.pointer⟩ : TypedName)).toList

theorem Prototype.length_params_make (name : String) (result : Option Ty)
    (params : List TypedName) :
    (Prototype.make name result params).params.length =
      result.toList.length + params.length := by
  cases result <;> simp [Prototype.make, Nat.add_comm]

end C

section Calls

variable {m : Module NodeId} {types : Table NodeId Ty} {program : C.Program}

/-- Whatever a call means, the function it goes to is there. -/
theorem Module.Generates.provides (h : m.Generates m.symbolTable types program) {σ : Scope}
    {callee : Expr NodeId} {args : List (Expr NodeId)} {s : Symbol}
    (hs : calledSymbol m.symbolTable σ callee args = .ok s) :
    program.Provides (Frame.calledName callee s) (s.result.toList.length + args.length) := by
  have hcapital : ∀ f ∈ m.functions, startsCapital f.name = false := fun _ => h.not_startsCapital
  obtain ⟨_, _, _, _, _, hlength, _⟩ := calledSymbol_eq_ok hs
  rw [← hlength, Module.calledName_eq hcapital hs]
  obtain ⟨f, hf, rfl⟩ | ⟨d, hd, rfl⟩ | hb := Module.source_of_calledSymbol hs
  · -- a function of the module, generated under its external name
    obtain ⟨hf, hshown⟩ := Module.mem_generatedFunctions.mp hf
    obtain ⟨_, g, hg, hgen⟩ := h.function_mem f hf hshown
    obtain ⟨frame, body, _, _, rfl⟩ := FunctionDecl.generate_eq_ok hgen
    have hproto : f.prototype m.symbolTable ∈ program.prototypes := by
      rw [h.prototypes_eq]
      exact List.mem_map.mpr ⟨_, hg, rfl⟩
    refine .inr ⟨_, hproto, (m.externalName_functionSymbol _).symm, ?_⟩
    rw [FunctionDecl.prototype, C.Prototype.length_params_make]
    simp [Module.functionSymbol, FunctionDecl.paramTypes]
  · -- the constructor of a struct
    have hproto : d.constructor.prototype ∈ program.prototypes := by
      rw [h.prototypes_eq]
      exact List.mem_map.mpr ⟨_, h.constructor_mem d hd, rfl⟩
    exact .inr ⟨_, hproto, rfl, rfl⟩
  · -- a built-in function, which the opening defines
    obtain ⟨hprintable, hopening, hcount⟩ := opened_of_mem_builtins s hb
    exact .inl ⟨s, hb, rfl, rfl, s.opened, hprintable, rfl, hopening, hcount⟩

/-- A generated body names its own storage, its parameters and the constants of the module. -/
theorem FunctionDecl.name_bound_of_generate {t : SymbolTable} {globals : Scope}
    {f : FunctionDecl NodeId} {g : C.Function} (hids : (Stmt.idsAll f.body).Nodup)
    (h : f.generate t types globals = .ok g) {x : String} (hx : x ∈ C.Stmt.namesAll g.body) :
    x ∈ g.locals.map (·.name) ∨ x ∈ g.prototype.params.map (·.name) ∨ (globals x).isSome := by
  obtain ⟨frame, body, hframe, hbody, rfl⟩ := FunctionDecl.generate_eq_ok h
  have hframed := FunctionDecl.framed_of_frame hframe
  have hnumbered := FunctionDecl.numbered_of_frame hids hframe
  have hmentions := Stmt.mentions_lowerAll t types (f.startScope globals) f.body body hbody
  -- a variable or parameter of the source is one of the C function
  have hlocal : x ∈ f.params.map (·.name) ∨ x ∈ frame.declared.map (·.name) →
      x ∈ frame.locals.map (·.name) ∨ x ∈ (f.prototype t).params.map (·.name) := by
    intro hname
    obtain hparam | hdeclared := hname
    · exact .inr (FunctionDecl.name_mem_prototype.mpr (.inr hparam))
    · exact .inl (frame.name_mem_locals_iff.mpr (.inl hdeclared))
  obtain ⟨id, hslot⟩ | hname | ⟨rfl, hresult⟩ := hmentions.name_known x hx
  · exact .inl (frame.name_mem_locals_iff.mpr (.inr (hnumbered.name_mem_slots hslot)))
  · obtain hname | hname := List.mem_append.mp hname
    · refine or_assoc.mp (.inl (hlocal ?_))
      by_cases hparam : x ∈ f.params.map (·.name)
      · exact .inl hparam
      · exact .inr ((FunctionDecl.name_mem_declared hframe).mpr ⟨hname, hparam⟩)
    · obtain hsome | hsome := Frame.isSome_scope.mp (hframed.visible x hname)
      · rw [Frame.isSome_localScope, hframed.params_eq] at hsome
        exact or_assoc.mp (.inl (hlocal hsome))
      · exact .inr (.inr (hframed.globals_eq ▸ hsome))
  · rw [hframed.result_eq] at hresult
    exact .inr (.inl (FunctionDecl.name_mem_prototype.mpr (.inl ⟨rfl, hresult⟩)))

theorem FunctionDecl.initial_local_of_generate {t : SymbolTable} {globals : Scope}
    {f : FunctionDecl NodeId} {g : C.Function} (h : f.generate t types globals = .ok g)
    {c : String × Literal} (hc : c ∈ g.initials) : c.1 ∈ g.locals.map (·.name) := by
  obtain ⟨frame, body, _, _, rfl⟩ := FunctionDecl.generate_eq_ok h
  obtain ⟨slot, hslot, hinit⟩ := List.mem_filterMap.mp hc
  obtain ⟨value, hvalue, rfl⟩ := Option.map_eq_some_iff.mp hinit
  exact frame.name_mem_locals_iff.mpr (.inr (List.mem_map.mpr ⟨slot, hslot, rfl⟩))

theorem Module.Generates.call_provided (h : m.Generates m.symbolTable types program)
    {f : FunctionDecl NodeId} {g : C.Function} (hids : (Stmt.idsAll f.body).Nodup)
    (hg : f.generate m.symbolTable types m.constantScope = .ok g)
    {c : String × List C.Operand} (hc : c ∈ C.Stmt.callsAll g.body) :
    program.Provides c.1 c.2.length := by
  obtain ⟨frame, body, hframe, hbody, rfl⟩ := FunctionDecl.generate_eq_ok hg
  have hframed := FunctionDecl.framed_of_frame hframe
  have hnumbered := FunctionDecl.numbered_of_frame hids hframe
  have hmentions := Stmt.mentions_lowerAll m.symbolTable types (f.startScope m.constantScope)
    f.body body hbody
  obtain ⟨σ, id, callee, args, hv, hcalled, hlength⟩ := hmentions.call_visited c hc
  obtain ⟨s, hs⟩ := hframed.granted _ hv
  have hname := hnumbered.called_of_mem hv hs
  have hslot := hnumbered.isSome_slot_of_call (FunctionDecl.nodup_slotIds hids) hv hs
  have hresult : (frame.valueSlots.get? id).toList.length = s.result.toList.length := by
    cases hget : frame.valueSlots.get? id <;> cases hres : s.result <;>
      simp [hget, hres] at hslot ⊢
  rw [hcalled] at hname
  rw [Option.some.inj hname, hlength, hresult]
  exact h.provides hs

end Calls

/-- The program of an accepted module is closed. -/
theorem Module.closed_of_generate {m : Module NodeId} {typed : TypedModule} {program : C.Program}
    (hids : m.ids.Nodup) (htyped : m.typed m.symbolTable = .ok typed)
    (h : typed.generate m.symbolTable = .ok program) : program.Closed := by
  have hgen := Module.generates_of_generate htyped h
  refine {
    prototypes_eq := hgen.prototypes_eq
    name_bound := ?_
    initial_local := ?_
    call_provided := ?_
    entry_declared := ?_ }
  · intro g hg x hx
    obtain ⟨s, _, rfl⟩ | ⟨f, hf, _, hfg⟩ := hgen.source g hg
    · cases hx
    · have hbound := FunctionDecl.name_bound_of_generate (Module.nodup_idsAll hids hf) hfg hx
      exact hbound.imp_right (Or.imp_right hgen.name_mem_globals)
  · intro g hg c hc
    obtain ⟨s, _, rfl⟩ | ⟨f, hf, _, hfg⟩ := hgen.source g hg
    · cases hc
    · exact FunctionDecl.initial_local_of_generate hfg hc
  · intro g hg c hc
    obtain ⟨s, _, rfl⟩ | ⟨f, hf, _, hfg⟩ := hgen.source g hg
    · cases hc
    · exact hgen.call_provided (Module.nodup_idsAll hids hf) hfg hc
  · have hentry := hgen.entry_eq
    rw [Module.entry] at hentry
    split at hentry
    · rename_i f hfind
      have hf : f ∈ m.functions := List.mem_of_find?_eq_some hfind
      have hstart := List.find?_some hfind
      simp only [Bool.and_eq_true, decide_eq_true_eq, List.isEmpty_iff] at hstart
      have hshown : m.symbolTable.hidesFunction f = false := by
        cases hhidden : m.symbolTable.hidesFunction f with
        | false => rfl
        | true =>
            obtain ⟨b, hb, hname⟩ := Module.builtin_of_hidesFunction hhidden
            have hnot : ∀ b ∈ builtins, b.externalName ≠ entryPoint := by decide
            exact absurd (hname.trans hstart.1) (hnot b hb)
      obtain ⟨_, g, hg, hfg⟩ := hgen.function_mem f hf hshown
      obtain ⟨frame, body, _, _, rfl⟩ := FunctionDecl.generate_eq_ok hfg
      have hproto : f.prototype m.symbolTable ∈ program.prototypes := by
        rw [hgen.prototypes_eq]
        exact List.mem_map.mpr ⟨_, hg, rfl⟩
      rw [← Except.ok.inj hentry]
      refine ⟨_, hproto, rfl, ?_⟩
      simp [FunctionDecl.prototype, C.Prototype.make, hstart.2]
    · cases hentry

theorem counting_closed :
    counting.ids.Nodup ∧
      ∃ typed program, counting.typed counting.symbolTable = .ok typed ∧
        typed.generate counting.symbolTable = .ok program ∧ program.Closed := by
  have hids : counting.ids.Nodup := by decide +kernel
  obtain ⟨program, hcompile⟩ := counting_compiles
  obtain ⟨typed, htyped, hprogram⟩ := Module.compile_eq_ok.mp hcompile
  exact ⟨hids, typed, program, htyped, hprogram, Module.closed_of_generate hids htyped hprogram⟩

end Mis
