import TypedClient.Proofs.NameCollisions

/-! The names in the scope of the factory: the imported helper, the argument, the base
address, and one function for each operation, as the generated code binds them. Where no
names are reported as shared, the operations differ in Pascal case. Their functions are
bound in camel case, which may agree all the same, or be one of the fixed names; these are
the only clashes. -/

namespace TypedClient

open Code Document Lint Text TypeScript

namespace TypeScript

/-! ### What code binds -/

/-- The constant that a declaration starts with. -/
def declaredConstant : List Token → Option String
  | .word keyword :: .word name :: .mark '=' :: _ =>
    if keyword = "const".toList then some (String.ofList name) else none
  | _ => none

/-- The constant that a line of code declares. -/
def declaredBy (code : String) : Option String := (tokens code).bind declaredConstant

mutual

/-- The constants that a piece of code binds, those inside its blocks left out. -/
def bound : Fragment → List String
  | .line text => (declaredBy text).toList
  | .block header _ _ => (declaredBy header).toList
  | .sequence body => boundAll body
  | .blank | .raw _ | .comment _ => []

def boundAll : List Fragment → List String
  | [] => []
  | fragment :: rest => bound fragment ++ boundAll rest

end

/-- The names that a module imports, but for those that stand for types only. -/
def Module.importedValues (m : Module) : List String :=
  m.imports.flatMap fun i => if i.typeOnly then [] else i.whole.toList ++ i.named

/-- What a function adds to the names in scope: its arguments and the constants of its body. -/
def Function.locals (f : Function) : List String := f.params.map Param.name ++ boundAll f.body

/-- The names that the client functions can refer to, the constants of the module left out. -/
def ClientDocument.scope (d : ClientDocument) : List String :=
  d.contents.importedValues ++ (factory d.functions).locals

theorem boundAll_append (a b : List Fragment) : boundAll (a ++ b) = boundAll a ++ boundAll b := by
  induction a with
  | nil => rfl
  | cons fragment a ih => rw [List.cons_append, boundAll, boundAll, ih, List.append_assoc]

theorem boundAll_comments (lines : List String) : boundAll (Fragment.comments lines) = [] := by
  induction lines with
  | nil => rfl
  | cons line lines ih => simpa [Fragment.comments, boundAll, bound] using ih

/-! ### The scope of the factory -/

/-- The names in scope whatever the operations are. -/
def fixedNames : List String := ["useApiService", "config", "baseURL"]

/-- A client function binds its own name and no other. -/
theorem boundAll_function {s : Signature} (h : s.WellFormed) :
    boundAll s.function.fragments = [s.functionName] := by
  have hname : declaredBy s.function.header = some s.functionName := by
    have hconstant : declaredConstant s.headerTokens =
        some (String.ofList s.functionName.toList) := rfl
    rw [declaredBy, Signature.tokens_header h, Option.bind_some, hconstant, String.ofList_toList]
  rw [Function.fragments, boundAll_append, boundAll_comments]
  simp [boundAll, bound, hname]

theorem bound_results (functions : List Function) :
    bound (ClientDocument.results functions) = [] := by
  unfold ClientDocument.results
  split <;> rfl

theorem boundAll_factory {signatures : List Signature} (h : ∀ s ∈ signatures, s.WellFormed) :
    boundAll (ClientDocument.factory (signatures.map Signature.function)).body =
      "baseURL" :: signatures.map Signature.functionName := by
  have hfunctions : boundAll ((signatures.map Signature.function).flatMap fun f =>
      [.sequence f.fragments, .blank]) = signatures.map Signature.functionName := by
    induction signatures with
    | nil => rfl
    | cons s rest ih =>
      rw [List.forall_mem_cons] at h
      simp [boundAll, bound, boundAll_function h.1, ih h.2]
  have hbase : boundAll [.sequence (Constant.fragments
      ⟨"baseURL", "config.apiBaseUrl ?? DEFAULT_API_BASE_URL", false⟩), .blank] = ["baseURL"] := rfl
  have hresults : boundAll [ClientDocument.results (signatures.map Signature.function)] = [] := by
    rw [boundAll, bound_results, boundAll, List.append_nil]
  rw [ClientDocument.factory, boundAll_append, boundAll_append, hbase, hfunctions, hresults,
    List.append_nil, List.singleton_append]

end TypeScript

/-- The fixed names are in scope, and one function for each operation. -/
theorem scope_clientDocument (g : Generator) : g.clientDocument.scope =
    fixedNames ++ g.api.operations.map fun op => functionName op.id := by
  have hwell : ∀ s ∈ g.signatures, s.WellFormed := by
    intro s hs
    obtain ⟨op, _, rfl⟩ := List.mem_map.mp hs
    exact Signature.wellFormed_ofOperation g.config.generation op
  have hnames : g.signatures.map Signature.functionName =
      g.api.operations.map fun op => functionName op.id := List.map_map
  rw [ClientDocument.scope, Function.locals, Generator.clientDocument, boundAll_factory hwell, hnames]
  rfl

/-! ### Clashes -/

theorem functionName_mem_fixedNames {id : String} :
    functionName id ∈ fixedNames ↔ camelCase id ∈ fixedNames := by
  have hplain : ∀ name ∈ fixedNames, safeName name = name ∧ name.toList.head? ≠ some '_' := by
    decide
  have heq : ∀ name ∈ fixedNames, functionName id = name ↔ camelCase id = name := by
    intro name hname
    obtain ⟨hsafe, hhead⟩ := hplain name hname
    rw [← safeName_inj (head?_camelCase_ne id) hhead, hsafe]
    rfl
  constructor
  · intro h
    rw [(heq _ h).mp rfl]
    exact h
  · intro h
    rw [(heq _ h).mpr rfl]
    exact h

section

variable (g : Generator) (d : Document) (hapi : g.api = .ofDocument d)
  (hquiet : duplicateOperationId.check g.config d = [])

include hapi hquiet

/-- Where nothing is reported, the functions are all different unless camel case alone confuses
two operations. -/
theorem functionNames_nodup_iff :
    (g.api.operations.map fun op => functionName op.id).Nodup ↔
      g.api.operations.Pairwise fun op other => ¬CaseApart op.id other.id := by
  have hpascal : g.api.operations.Pairwise fun op other => pascalCase op.id ≠ pascalCase other.id := by
    rw [hapi, Api.ofDocument, List.pairwise_map]
    exact List.pairwise_map.mp (duplicateOperationId_quiet_iff.mp hquiet)
  rw [List.Nodup, List.pairwise_map]
  constructor
  · exact fun h => h.imp fun hne hapart => hne (functionName_inj.mpr hapart.1)
  · exact fun h => (h.and hpascal).imp fun hboth heq =>
      hboth.1 ⟨functionName_inj.mp heq, hboth.2⟩

/-- Without upper case letters inside their first words, operations never share a function. -/
theorem functionNames_nodup
    (hwords : ∀ op ∈ g.api.operations, ∀ c ∈ (firstWord op.id).tail, c.isUpper = false) :
    (g.api.operations.map fun op => functionName op.id).Nodup := by
  refine (functionNames_nodup_iff g d hapi hquiet).mpr (List.pairwise_of_forall_mem_list ?_)
  intro op hop other hother hapart
  rcases hapart.exists_isUpper with ⟨c, hc, hupper⟩ | ⟨c, hc, hupper⟩
  · exact absurd hupper (by simp [hwords op hop c hc])
  · exact absurd hupper (by simp [hwords other hother c hc])

/-- Where nothing is reported, the names in the scope of the factory are all different exactly when
no operations agree in camel case only, and none is in camel case one of the fixed names. -/
theorem scope_nodup_iff : g.clientDocument.scope.Nodup ↔
    (g.api.operations.Pairwise fun op other => ¬CaseApart op.id other.id) ∧
      ∀ op ∈ g.api.operations, camelCase op.id ∉ fixedNames := by
  have hfixed : fixedNames.Nodup := by decide
  rw [scope_clientDocument, List.nodup_append', functionNames_nodup_iff g d hapi hquiet]
  constructor
  · rintro ⟨_, hdistinct, hdisjoint⟩
    refine ⟨hdistinct, fun op hop hname => ?_⟩
    exact hdisjoint (functionName_mem_fixedNames.mpr hname) (List.mem_map_of_mem hop)
  · rintro ⟨hdistinct, happart⟩
    refine ⟨hfixed, hdistinct, fun name hname hfunction => ?_⟩
    obtain ⟨op, hop, rfl⟩ := List.mem_map.mp hfunction
    exact happart op hop (functionName_mem_fixedNames.mp hname)

end

theorem idsDocument_scope_nodup_iff :
    let d := idsDocument "listPets" "getPet"
    let g := Generator.ofDocument .default d
    g.api = .ofDocument d ∧ duplicateOperationId.check g.config d = [] ∧
      (g.clientDocument.scope.Nodup ↔
        (g.api.operations.Pairwise fun op other => ¬CaseApart op.id other.id) ∧
          ∀ op ∈ g.api.operations, camelCase op.id ∉ fixedNames) := by
  intro d g
  have hquiet : duplicateOperationId.check g.config d = [] := by decide +kernel
  exact ⟨rfl, hquiet, scope_nodup_iff g d rfl hquiet⟩

/-- Functions of one name, and a function named like the argument of the factory: neither is
reported. -/
theorem clashes_not_reported :
    (duplicateOperationId.check .default (idsDocument "HTTPServer" "httpserver") = [] ∧
      ¬(Generator.ofDocument .default
        (idsDocument "HTTPServer" "httpserver")).clientDocument.scope.Nodup) ∧
    (duplicateOperationId.check .default (idsDocument "config" "list") = [] ∧
      ¬(Generator.ofDocument .default (idsDocument "config" "list")).clientDocument.scope.Nodup) := by
  simp only [scope_clientDocument]
  decide +kernel

end TypedClient
