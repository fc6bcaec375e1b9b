import Tsumugi.Capability.Dispatch

/-!
# Authority comes before the effect

The operation matrix says which operations a root must grant for an effect. The
dispatcher keeps to it, but for two builtins: `list_dir` checks `List` and not `Metadata`,
and `rename`, which always replaces, does not check `Delete` on the destination.

Results:
1. `dispatch_settled`: a call is denied without a look at the host, or each adapter call
   it makes has passed the checks of the code;
2. `authorityLaw_iff`: the matrix is kept exactly if what those two builtins leave
   unchecked is granted all the same.
-/

namespace Tsumugi.Capability

variable {A F σ : Type}

/-! ## The operation matrix -/

/-- An operation that the root named by an argument must grant, for an effect at a path
of an adapter. -/
structure Need (A : Type) where
  arg : Nat
  adapter : A
  path : RelativePath
  operation : FsOperation

/-- The operations for an open request. -/
def OpenFileRequest.matrix : OpenFileRequest → List FsOperation
  | .readExisting => [.read]
  | .writeExisting _ => [.write]
  | .createNew _ => [.create]
  | .upsert _ => [.write, .create]

/-- The operation for a removal. -/
def RemoveKind.matrix : RemoveKind → FsOperation
  | .fileOrSymlink | .emptyDirectory => .delete
  | .tree => .recursiveDelete

/-- What the operation matrix asks for the effect of an adapter call. -/
def Adapters.needs (adapters : Adapters A F σ) (r : CallRecord A σ) : List (Need A) :=
  match r.call with
  | .openFile a p request => request.matrix.map (⟨0, a, p, ·⟩)
  | .readToEnd a p _ => [⟨0, a, p, .read⟩]
  | .writeAll a p _ => [⟨0, a, p, .write⟩]
  | .createDir a p => [⟨0, a, p, .create⟩]
  | .metadata a p _ => [⟨0, a, p, .metadata⟩]
  | .list a p _ => [⟨0, a, p, .metadata⟩, ⟨0, a, p, .list⟩]
  | .remove a p kind => [⟨0, a, p, kind.matrix⟩]
  | .rename a p b q _ =>
    ⟨0, a, p, .delete⟩ ::
      match adapters.destination a b with
      | none => []
      | some d =>
        ⟨1, d, q, .create⟩ ::
          if adapters.replaces a p b q r.before then [⟨1, d, q, .delete⟩] else []

/-- What the code checks before an adapter call. -/
def FsCall.checks : FsCall A → List (Need A)
  | .openFile a p request => request.matrix.map (⟨0, a, p, ·⟩)
  | .readToEnd a p _ => [⟨0, a, p, .read⟩]
  | .writeAll a p _ => [⟨0, a, p, .write⟩]
  | .createDir a p => [⟨0, a, p, .create⟩]
  | .metadata a p _ => [⟨0, a, p, .metadata⟩]
  | .list a p _ => [⟨0, a, p, .list⟩]
  | .remove a p kind => [⟨0, a, p, kind.matrix⟩]
  | .rename a p b q _ => [⟨0, a, p, .delete⟩, ⟨1, b, q, .create⟩]

/-- Whether these checks are all that the matrix asks for. -/
def FsCall.fullyChecked : FsCall A → Bool
  | .list .. | .rename .. => false
  | _ => true

/-- An argument names a path under a root that grants the operation. -/
def Routed (filesystem : Option (FilesystemCapability A)) (args : List Value) (arg : Nat)
    (operation : FsOperation) (root : FilesystemRoot A) (target : FilesystemTarget) : Prop :=
  ∃ cap id path, filesystem = some cap ∧ args[arg]? = some (.str id path) ∧
    cap.target path = .ok (some target) ∧ cap.root target.mount = some root ∧
    operation ∈ root.operations

namespace Routed

variable {filesystem : Option (FilesystemCapability A)} {args : List Value} {i : Nat}
variable {op op' : FsOperation} {root root' : FilesystemRoot A} {target target' : FilesystemTarget}

theorem granted (h : Routed filesystem args i op root target) : op ∈ root.operations := by
  obtain ⟨-, -, -, -, -, -, -, hop⟩ := h
  exact hop

/-- The same root may grant another operation. -/
theorem of_granted (h : Routed filesystem args i op root target) (hop : op' ∈ root.operations) :
    Routed filesystem args i op' root target := by
  obtain ⟨cap, id, path, hcap, harg, ht, hr, -⟩ := h
  exact ⟨cap, id, path, hcap, harg, ht, hr, hop⟩

/-- A path argument has one target and one root. -/
theorem unique (h : Routed filesystem args i op root target)
    (h' : Routed filesystem args i op' root' target') : root = root' ∧ target = target' := by
  obtain ⟨cap, id, path, rfl, harg, ht, hr, -⟩ := h
  obtain ⟨cap', id', path', hcap, harg', ht', hr', -⟩ := h'
  obtain rfl : cap = cap' := Option.some.inj hcap
  obtain ⟨-, rfl⟩ : id = id' ∧ path = path' := by simpa using harg.symm.trans harg'
  obtain rfl : target = target' := by simpa using ht.symm.trans ht'
  exact ⟨Option.some.inj (hr.symm.trans hr'), rfl⟩

end Routed

/-- The root that the argument names has this adapter and grants the operation. -/
def Grants (filesystem : Option (FilesystemCapability A)) (args : List Value) (need : Need A) :
    Prop :=
  ∃ root target, Routed filesystem args need.arg need.operation root target ∧
    root.adapter = need.adapter ∧ target.path = need.path

/-- How many arguments a builtin takes. -/
def FsBuiltin.arity : FsBuiltin → Nat
  | writeFile | appendFile | rename => 2
  | _ => 1

/-- How many of them are paths. -/
def FsBuiltin.pathArity : FsBuiltin → Nat
  | rename => 2
  | _ => 1

theorem FsBuiltin.pathArity_pos (b : FsBuiltin) : 0 < b.pathArity := by
  unfold pathArity
  split <;> decide

/-- The arguments have the right number and types, and the paths parse. -/
def FsBuiltinCall.WellFormed (call : FsBuiltinCall)
    (filesystem : Option (FilesystemCapability A)) : Prop :=
  call.args.length = call.builtin.arity ∧
    ∀ i < call.builtin.pathArity, ∃ id path, call.args[i]? = some (.str id path) ∧
      ∀ cap, filesystem = some cap → ∃ target, cap.target path = .ok target

/-- Every adapter call has the authority that the matrix asks for. Where none is made, the
answer is the same error whatever the host holds, and it is the denial if the arguments
are well formed. -/
def AuthorityLaw (adapters : Adapters A F σ) (formatFloat : UInt64 → String)
    (filesystem : Option (FilesystemCapability A)) (call : FsBuiltinCall) (s : σ) : Prop :=
  let run := dispatchFs adapters formatFloat filesystem call
  (∀ r ∈ (run s).calls, ∀ need ∈ adapters.needs r, Grants filesystem call.args need) ∧
    ((run s).calls = [] → ∃ e, (call.WellFormed filesystem → e = .filesystemDenied call.line) ∧
      ∀ s', (run s').outcome = .error e ∧ (run s').calls = [] ∧ (run s').host = s')

/-- What `list_dir` and `rename` leave unchecked holds all the same. -/
def MeetsMatrix (adapters : Adapters A F σ) (filesystem : Option (FilesystemCapability A))
    (call : FsBuiltinCall) (s : σ) : Prop :=
  match call.builtin with
  | .listDir =>
    call.args.length = 1 → ∀ root target, Routed filesystem call.args 0 .list root target →
      .metadata ∈ root.operations
  | .rename =>
    call.args.length = 2 → ∀ fromRoot source toRoot target,
      Routed filesystem call.args 0 .delete fromRoot source →
      Routed filesystem call.args 1 .create toRoot target →
      ∀ d, adapters.destination fromRoot.adapter toRoot.adapter = some d →
        d = toRoot.adapter ∧
          (adapters.replaces fromRoot.adapter source.path toRoot.adapter target.path s →
            .delete ∈ toRoot.operations)
  | _ => True

/-! ## What an action of the dispatcher does -/

/-- The calls lead from one host to another. -/
def Linked : σ → List (CallRecord A σ) → σ → Prop
  | s, [], s' => s' = s
  | s, r :: rest, s' => r.before = s ∧ Linked r.after rest s'

/-- The call is what became of the host. -/
def Adapters.Did (adapters : Adapters A F σ) (r : CallRecord A σ) : Prop :=
  match r.call with
  | .openFile a p request => r.after = (adapters.openFile a p request r.before).2
  | .readToEnd _ _ n => ∃ file, r.after = (adapters.readToEnd file n r.before).2
  | .writeAll _ _ bytes => ∃ file, r.after = (adapters.writeAll file bytes r.before).2
  | .createDir a p => r.after = (adapters.createDir a p r.before).2
  | .metadata a p follow => r.after = (adapters.metadata a p follow r.before).2
  | .list a p n => r.after = (adapters.list a p n r.before).2
  | .remove a p kind => r.after = (adapters.remove a p kind r.before).2
  | .rename a p b q replace => r.after = (adapters.rename a p b q replace r.before).2

/-- Between two states these calls were made, each of which satisfies `P`. -/
structure Logs (P : CallRecord A σ → Prop) (st st' : FsRun A σ) (new : List (CallRecord A σ)) :
    Prop where
  calls : st'.calls = st.calls ++ new
  linked : Linked st.host new st'.host
  all : ∀ r ∈ new, P r

/-- The action makes only calls that satisfy `P`. -/
def Keeps {α : Type} (P : CallRecord A σ → Prop) (m : FsM A σ α) : Prop :=
  ∀ st, ∃ new, Logs P st (m st).2 new

/-- The action fails with this error and does not look at the host. -/
def Denies {α : Type} (m : FsM A σ α) (e : TsumugiError) : Prop :=
  ∀ st, (m st).1 = .error e ∧ (m st).2.calls = st.calls ∧ (m st).2.host = st.host

/-- The action fails with an error in `D` and does not look at the host, or it makes some
calls, each of which satisfies `P` for the host at the start. -/
def Settled {α : Type} (D : TsumugiError → Prop) (P : σ → CallRecord A σ → Prop)
    (m : FsM A σ α) : Prop :=
  (∃ e, D e ∧ Denies m e) ∨ ∀ st, ∃ new, new ≠ [] ∧ Logs (P st.host) st (m st).2 new

section

variable {P : CallRecord A σ → Prop}

theorem Linked.append {s s' s'' : σ} {l l' : List (CallRecord A σ)} (h : Linked s l s')
    (h' : Linked s' l' s'') : Linked s (l ++ l') s'' := by
  induction l generalizing s with
  | nil =>
    obtain rfl : s' = s := h
    exact h'
  | cons r rest ih => exact ⟨h.1, ih h.2⟩

theorem Logs.refl (st : FsRun A σ) : Logs P st st [] :=
  ⟨(List.append_nil _).symm, rfl, by simp⟩

theorem Logs.trans {st₁ st₂ st₃ : FsRun A σ} {l l' : List (CallRecord A σ)}
    (h : Logs P st₁ st₂ l) (h' : Logs P st₂ st₃ l') : Logs P st₁ st₃ (l ++ l') := by
  refine ⟨by rw [h'.calls, h.calls, List.append_assoc], h.linked.append h'.linked, ?_⟩
  intro r hr
  exact (List.mem_append.mp hr).elim (h.all r) (h'.all r)

end

namespace AuthorityLemmas

variable {α β : Type} {D : TsumugiError → Prop} {P : CallRecord A σ → Prop}

theorem bind_apply (m : FsM A σ α) (f : α → FsM A σ β) (st : FsRun A σ) :
    (m >>= f) st =
      match m st with
      | (.ok a, st') => f a st'
      | (.error e, st') => (.error e, st') := rfl

theorem keeps_pure (a : α) : Keeps P (pure a : FsM A σ α) := fun st => ⟨[], .refl st⟩

theorem keeps_bind {m : FsM A σ α} {f : α → FsM A σ β} (hm : Keeps P m)
    (hf : ∀ a, Keeps P (f a)) : Keeps P (m >>= f) := by
  intro st
  obtain ⟨new, hnew⟩ := hm st
  rw [bind_apply]
  split
  · next a st' heq =>
    rw [heq] at hnew
    obtain ⟨more, hmore⟩ := hf a st'
    exact ⟨new ++ more, hnew.trans hmore⟩
  · next e st' heq =>
    rw [heq] at hnew
    exact ⟨new, hnew⟩

theorem keeps_check (x : Except TsumugiError α) : Keeps P (liftM x : FsM A σ α) :=
  fun st => ⟨[], .refl st⟩

/-- One call. -/
theorem logs_perform {call : FsCall A} {method : σ → Except AdapterError α × σ}
    (st : FsRun A σ) (h : P ⟨st.host, call, (method st.host).2⟩) :
    Logs P st (perform call method st).2 [⟨st.host, call, (method st.host).2⟩] :=
  ⟨rfl, ⟨rfl, rfl⟩, by simpa using h⟩

theorem keeps_perform {call : FsCall A} {method : σ → Except AdapterError α × σ}
    (h : ∀ s, P ⟨s, call, (method s).2⟩) : Keeps P (perform call method) :=
  fun st => ⟨_, logs_perform st (h st.host)⟩

variable {Q : σ → CallRecord A σ → Prop}

theorem settled_check {x : Except TsumugiError α} {f : α → FsM A σ β}
    (herr : ∀ e, x = .error e → D e) (hok : ∀ a, x = .ok a → Settled D Q (f a)) :
    Settled D Q ((liftM x : FsM A σ α) >>= f) := by
  cases x with
  | error e => exact .inl ⟨e, herr e rfl, fun st => ⟨rfl, rfl, rfl⟩⟩
  | ok a => exact hok a rfl

theorem settled_perform {call : FsCall A} {method : σ → Except AdapterError α × σ}
    {f : Except AdapterError α → FsM A σ β} (h : ∀ s, Q s ⟨s, call, (method s).2⟩)
    (hf : ∀ s r, Keeps (Q s) (f r)) : Settled D Q (perform call method >>= f) := by
  refine .inr fun st => ?_
  obtain ⟨more, hmore⟩ := hf st.host (method st.host).1 (perform call method st).2
  refine ⟨[⟨st.host, call, (method st.host).2⟩] ++ more, by simp, ?_⟩
  rw [bind_apply]
  exact (logs_perform st (h st.host)).trans hmore

theorem fsRoute_apply (cap : FilesystemCapability A) (path : String) (op : FsOperation)
    (line : Nat) (st : FsRun A σ) :
    fsRoute cap path op line st =
      match fsTarget cap path line with
      | .error e => (.error e, st)
      | .ok target =>
        match cap.root target.mount with
        | none => (.error (.filesystemDenied line), st)
        | some root =>
          if op ∉ root.operations then (.error (.filesystemDenied line), st)
          else (.ok (root, target), { st with label := some (canonicalResourceLabel target) }) := by
  unfold fsRoute
  rw [bind_apply]
  cases fsTarget cap path line with
  | error e => rfl
  | ok target =>
    simp only [liftM, monadLift, MonadLift.monadLift]
    cases cap.root target.mount with
    | none => rfl
    | some root =>
      simp only
      split <;> rfl

theorem fsRoute_routed {cap : FilesystemCapability A} {path : String} {op : FsOperation}
    {line : Nat} {root : FilesystemRoot A} {target : FilesystemTarget}
    (ht : cap.target path = .ok (some target)) (hr : cap.root target.mount = some root)
    (hop : op ∈ root.operations) (st : FsRun A σ) :
    fsRoute cap path op line st =
      (.ok (root, target), { st with label := some (canonicalResourceLabel target) }) := by
  simp only [fsRoute_apply, fsTarget, ht, hr, hop, not_true, ↓reduceIte]

/-- Routing fails without a look at the host, or it finds the root and checks the
operation. -/
theorem fsRoute_cases (cap : FilesystemCapability A) (path : String) (op : FsOperation)
    (line : Nat) :
    (∃ e, (e = .filesystemDenied line ∨
        e = .argumentInvalidPath line ∧ ∃ e', cap.target path = .error e') ∧
      ∀ st : FsRun A σ, fsRoute cap path op line st = (.error e, st)) ∨
    ∃ root target, cap.target path = .ok (some target) ∧ cap.root target.mount = some root ∧
      op ∈ root.operations := by
  cases ht : cap.target path with
  | error e' =>
    exact .inl ⟨_, .inr ⟨rfl, e', rfl⟩, fun st => by simp only [fsRoute_apply, fsTarget, ht]⟩
  | ok found =>
    cases found with
    | none => exact .inl ⟨_, .inl rfl, fun st => by simp only [fsRoute_apply, fsTarget, ht]⟩
    | some target =>
      cases hr : cap.root target.mount with
      | none => exact .inl ⟨_, .inl rfl, fun st => by simp only [fsRoute_apply, fsTarget, ht, hr]⟩
      | some root =>
        by_cases hop : op ∈ root.operations
        · exact .inr ⟨root, target, rfl, hr, hop⟩
        · exact .inl ⟨_, .inl rfl, fun st => by
            simp only [fsRoute_apply, fsTarget, ht, hr, hop, not_false_eq_true, ↓reduceIte]⟩

theorem settled_route {cap : FilesystemCapability A} {path : String} {op : FsOperation}
    {line : Nat} {f : FilesystemRoot A × FilesystemTarget → FsM A σ β}
    (hden : D (.filesystemDenied line))
    (hpath : ∀ e, cap.target path = .error e → D (.argumentInvalidPath line))
    (h : ∀ root target, cap.target path = .ok (some target) → cap.root target.mount = some root →
      op ∈ root.operations → Settled D Q (f (root, target))) :
    Settled D Q (fsRoute cap path op line >>= f) := by
  rcases fsRoute_cases (σ := σ) cap path op line with ⟨e, he, hrun⟩ | ⟨root, target, ht, hr, hop⟩
  · refine .inl ⟨e, ?_, fun st => ?_⟩
    · rcases he with rfl | ⟨rfl, e', he'⟩
      · exact hden
      · exact hpath e' he'
    · rw [bind_apply, hrun]
      exact ⟨rfl, rfl, rfl⟩
  · rcases h root target ht hr hop with ⟨e, he, hdeny⟩ | hlog
    · refine .inl ⟨e, he, fun st => ?_⟩
      rw [bind_apply, fsRoute_routed ht hr hop]
      exact hdeny { st with label := some (canonicalResourceLabel target) }
    · refine .inr fun st => ?_
      obtain ⟨new, hne, hnew⟩ := hlog { st with label := some (canonicalResourceLabel target) }
      rw [bind_apply, fsRoute_routed ht hr hop]
      exact ⟨new, hne, hnew.calls, hnew.linked, hnew.all⟩

theorem fsM_bind_assoc {γ : Type} (m : FsM A σ α) (f : α → FsM A σ β) (g : β → FsM A σ γ) :
    m >>= f >>= g = m >>= fun a => f a >>= g := by
  funext st
  simp only [bind_apply]
  rcases m st with ⟨_ | _, _⟩ <;> rfl

/-! ## The builtins -/

variable (adapters : Adapters A F σ) (formatFloat : UInt64 → String)

/-- A call that the dispatcher made, in a run from `s`: what became of the host, the checks
it has passed, and which builtin makes the calls that are not fully checked. -/
structure Checked (filesystem : Option (FilesystemCapability A)) (call : FsBuiltinCall) (s : σ)
    (r : CallRecord A σ) : Prop where
  did : adapters.Did r
  checks : ∀ need ∈ r.call.checks, Grants filesystem call.args need
  list : ∀ a p n, r.call = .list a p n → call.builtin = .listDir ∧ call.args.length = 1
  rename : ∀ a p b q replace, r.call = .rename a p b q replace →
    call.builtin = .rename ∧ call.args.length = 2 ∧ r.before = s

/-- The errors that a denied call may answer. -/
def DeniedWith (filesystem : Option (FilesystemCapability A)) (call : FsBuiltinCall)
    (e : TsumugiError) : Prop :=
  call.WellFormed filesystem → e = .filesystemDenied call.line

theorem requireStr_ok {args : List Value} {i : Nat} {name path : String} {line : Nat}
    (h : requireStr args i name line = .ok path) : ∃ id, args[i]? = some (.str id path) := by
  unfold requireStr at h
  rw [List.getD_eq_getElem?_getD] at h
  cases ha : args[i]? with
  | none =>
    rw [ha] at h
    cases h
  | some v =>
    rw [ha] at h
    simp only [Option.getD_some] at h
    split at h
    · next id s =>
      cases h
      exact ⟨id, rfl⟩
    · cases h

theorem requireStr_error {args : List Value} {i : Nat} {name : String} {line : Nat}
    {e : TsumugiError} (h : requireStr args i name line = .error e) {id : Nat} {path : String} :
    args[i]? ≠ some (.str id path) := by
  intro ha
  unfold requireStr at h
  rw [List.getD_eq_getElem?_getD, ha] at h
  cases h

variable {adapters} {cap : FilesystemCapability A} {call : FsBuiltinCall}

theorem checked_of_fullyChecked {filesystem : Option (FilesystemCapability A)} {s : σ}
    {r : CallRecord A σ} (hdid : adapters.Did r)
    (hchecks : ∀ need ∈ r.call.checks, Grants filesystem call.args need)
    (hfull : r.call.fullyChecked) : Checked adapters filesystem call s r := by
  refine ⟨hdid, hchecks, fun a p n hr => ?_, fun a p b q replace hr => ?_⟩
  · rw [hr] at hfull
    cases hfull
  · rw [hr] at hfull
    cases hfull

/-- The number of arguments is checked first. -/
theorem settled_arity {n : Nat} (hn : n = call.builtin.arity) {f : Unit → FsM A σ β}
    (h : call.args.length = n → Settled (DeniedWith (some cap) call) Q (f ())) :
    Settled (DeniedWith (some cap) call) Q
      ((liftM (checkArity call.builtin.name call.args n call.line) : FsM A σ Unit) >>= f) := by
  refine settled_check (fun e he hwf => ?_) fun _ hok => h ?_
  · unfold checkArity at he
    rw [if_neg (by simp [hn, hwf.1])] at he
    cases he
  · unfold checkArity at hok
    split at hok
    · cases hok
    · next hlen => exact not_not.mp hlen

/-- Then a path argument is taken and routed. -/
theorem settled_path (i : Nat) (hi : i < call.builtin.pathArity) {f : String → FsM A σ β}
    (h : ∀ path id, call.args[i]? = some (.str id path) →
      Settled (DeniedWith (some cap) call) Q (f path)) :
    Settled (DeniedWith (some cap) call) Q
      ((liftM (requireStr call.args i call.builtin.name call.line) : FsM A σ String) >>= f) := by
  refine settled_check (fun e he hwf => ?_) fun path hpath => ?_
  · obtain ⟨id, path, hstr, -⟩ := hwf.2 i hi
    exact absurd hstr (requireStr_error he)
  · obtain ⟨id, hid⟩ := requireStr_ok hpath
    exact h path id hid

/-- The start that all builtins share. -/
theorem settled_args {n : Nat} (hn : n = call.builtin.arity) {f : String → FsM A σ β}
    (h : call.args.length = n → ∀ path id, call.args[0]? = some (.str id path) →
      Settled (DeniedWith (some cap) call) Q (f path)) :
    Settled (DeniedWith (some cap) call) Q
      ((liftM (checkArity call.builtin.name call.args n call.line) : FsM A σ Unit) >>= fun _ =>
        (liftM (requireStr call.args 0 call.builtin.name call.line) : FsM A σ String) >>= f) :=
  settled_arity hn fun hlen => settled_path 0 call.builtin.pathArity_pos (h hlen)

theorem settled_routed {i : Nat} (hi : i < call.builtin.pathArity) {path : String} {id : Nat}
    (hpath : call.args[i]? = some (.str id path)) {op : FsOperation}
    {f : FilesystemRoot A × FilesystemTarget → FsM A σ β}
    (h : ∀ root target, Routed (some cap) call.args i op root target →
      Settled (DeniedWith (some cap) call) Q (f (root, target))) :
    Settled (DeniedWith (some cap) call) Q (fsRoute cap path op call.line >>= f) := by
  refine settled_route (fun _ => rfl) (fun e he hwf => ?_) fun root target ht hr hop =>
    h root target ⟨cap, id, path, rfl, hpath, ht, hr, hop⟩
  obtain ⟨id', path', hstr, hparse⟩ := hwf.2 i hi
  obtain ⟨target, htarget⟩ := hparse cap rfl
  obtain ⟨-, rfl⟩ : id = id' ∧ path = path' := by simpa using hpath.symm.trans hstr
  rw [he] at htarget
  cases htarget

/-- Opening a file: the request is checked against the matrix, and what is done with the
file is done at the place where it was opened. -/
theorem settled_open {path : String} {id : Nat} (hpath : call.args[0]? = some (.str id path))
    {request : OpenFileRequest} {f : FsFile A F → FsM A σ β}
    (hf : ∀ file : FsFile A F,
      (∀ op ∈ request.matrix, Grants (some cap) call.args ⟨0, file.adapter, file.path, op⟩) →
      ∀ s, Keeps (Checked adapters (some cap) call s) (f file)) :
    Settled (DeniedWith (some cap) call) (Checked adapters (some cap) call)
      (fsOpen adapters call.builtin.name cap path request call.line >>= f) := by
  unfold fsOpen
  rw [fsM_bind_assoc]
  refine settled_routed call.builtin.pathArity_pos hpath fun root target hrouted => ?_
  by_cases hcreate : request.isUpsert ∧ FsOperation.create ∉ root.operations
  · simp only [if_pos hcreate]
    exact .inl ⟨_, fun _ => rfl, fun _ => ⟨rfl, rfl, rfl⟩⟩
  · have hgranted : ∀ op ∈ request.matrix,
        Grants (some cap) call.args ⟨0, root.adapter, target.path, op⟩ := by
      intro op hop
      refine ⟨root, target, hrouted.of_granted ?_, rfl, rfl⟩
      cases request with
      | upsert mode =>
        -- both operations of an upsert are checked, one of them by the route
        simp only [OpenFileRequest.matrix, List.mem_cons, List.not_mem_nil, or_false] at hop
        rcases hop with rfl | rfl
        · exact hrouted.granted
        · by_contra hno
          exact hcreate ⟨rfl, hno⟩
      | readExisting | writeExisting mode | createNew mode =>
        obtain rfl := List.mem_singleton.mp hop
        exact hrouted.granted
    simp only [if_neg hcreate, fsM_bind_assoc]
    refine settled_perform (fun s => checked_of_fullyChecked rfl (fun need hneed => ?_) rfl)
      fun s opened => ?_
    · obtain ⟨op, hop, rfl⟩ := List.mem_map.mp hneed
      exact hgranted op hop
    · exact keeps_bind (keeps_check _) fun file => hf ⟨file, root.adapter, target.path⟩ hgranted s

/-- Reading from an open file. -/
theorem keeps_readToEnd {file : FsFile A F} {s : σ}
    (h : Grants (some cap) call.args ⟨0, file.adapter, file.path, .read⟩) :
    Keeps (Checked adapters (some cap) call s)
      (fsReadToEnd (σ := σ) adapters call.builtin.name file call.line) := by
  refine keeps_bind (keeps_perform fun s => checked_of_fullyChecked ⟨file.file, rfl⟩ ?_ rfl)
    fun bytes => keeps_check _
  intro need hneed
  obtain rfl := List.mem_singleton.mp hneed
  exact h

/-- Writing to an open file. -/
theorem keeps_writeAll {file : FsFile A F} {content : String} {s : σ}
    (h : Grants (some cap) call.args ⟨0, file.adapter, file.path, .write⟩) :
    Keeps (Checked adapters (some cap) call s)
      (fsWriteAll (σ := σ) adapters call.builtin.name file content call.line) := by
  refine keeps_bind (keeps_perform fun s => checked_of_fullyChecked ⟨file.file, rfl⟩ ?_ rfl)
    fun written => keeps_check _
  intro need hneed
  obtain rfl := List.mem_singleton.mp hneed
  exact h

/-- A builtin that routes one path with the operation that its one call needs. -/
theorem settled_single {op : FsOperation} {path : String} {id : Nat}
    (hpath : call.args[0]? = some (.str id path)) (made : A → RelativePath → FsCall A)
    (method : A → RelativePath → σ → Except AdapterError α × σ)
    (hdid : ∀ a p s, adapters.Did ⟨s, made a p, (method a p s).2⟩)
    (hchecks : ∀ a p, (made a p).checks = [⟨0, a, p, op⟩]) (hfull : ∀ a p, (made a p).fullyChecked)
    {f : Except AdapterError α → FsM A σ β}
    (hf : ∀ s r, Keeps (Checked adapters (some cap) call s) (f r)) :
    Settled (DeniedWith (some cap) call) (Checked adapters (some cap) call)
      (fsRoute cap path op call.line >>= fun x =>
        perform (made x.1.adapter x.2.path) (method x.1.adapter x.2.path) >>= f) := by
  refine settled_routed call.builtin.pathArity_pos hpath fun root target hrouted => ?_
  refine settled_perform
    (fun s => checked_of_fullyChecked (hdid _ _ s) (fun need hneed => ?_) (hfull _ _)) hf
  rw [hchecks] at hneed
  obtain rfl := List.mem_singleton.mp hneed
  exact ⟨root, target, hrouted, rfl, rfl⟩

/-- The three builtins that look only at the kind of an entry. -/
theorem settled_metadataKind {path : String} {id : Nat}
    (hpath : call.args[0]? = some (.str id path)) {f : Option EntryKind → FsM A σ β}
    (hf : ∀ s kind, Keeps (Checked adapters (some cap) call s) (f kind)) :
    Settled (DeniedWith (some cap) call) (Checked adapters (some cap) call)
      (fsMetadataKind adapters cap path call.line >>= f) := by
  unfold fsMetadataKind
  rw [fsM_bind_assoc]
  refine settled_routed call.builtin.pathArity_pos hpath fun root target hrouted => ?_
  simp only [fsM_bind_assoc]
  refine settled_perform (fun s => checked_of_fullyChecked rfl (fun need hneed => ?_) rfl)
    fun s r => ?_
  · obtain rfl := List.mem_singleton.mp hneed
    exact ⟨root, target, hrouted, rfl, rfl⟩
  · cases r with
    | ok info => exact keeps_bind (keeps_pure _) (hf s)
    | error e => exact keeps_bind (keeps_pure _) (hf s)

end AuthorityLemmas

open AuthorityLemmas in
/-- A filesystem builtin is denied without a look at the host, or it makes calls that have
passed the checks. -/
theorem dispatch_settled (adapters : Adapters A F σ) (formatFloat : UInt64 → String)
    (cap : FilesystemCapability A) (call : FsBuiltinCall) :
    Settled (DeniedWith (some cap) call) (Checked adapters (some cap) call)
      (dispatchFilesystemCapability adapters formatFloat cap call) := by
  obtain ⟨builtin, args, maxCollection, line⟩ := call
  cases builtin with
  | readFile =>
    refine settled_args rfl fun _ path id hpath => settled_open hpath fun file hgranted s => ?_
    exact keeps_bind (keeps_readToEnd (hgranted _ (by simp [OpenFileRequest.matrix])))
      fun bytes => keeps_pure _
  | readLines =>
    refine settled_args rfl fun _ path id hpath => settled_open hpath fun file hgranted s => ?_
    exact keeps_bind (keeps_readToEnd (hgranted _ (by simp [OpenFileRequest.matrix])))
      fun bytes => keeps_bind (keeps_check _) fun _ => keeps_pure _
  | writeFile | appendFile =>
    refine settled_args rfl fun _ path id hpath => settled_open hpath fun file hgranted s => ?_
    exact keeps_bind (keeps_writeAll (hgranted _ (by simp [OpenFileRequest.matrix])))
      fun _ => keeps_pure _
  | mkdir =>
    refine settled_args rfl fun _ path id hpath => ?_
    exact settled_single hpath FsCall.createDir adapters.createDir
      (fun _ _ _ => rfl) (fun _ _ => rfl) (fun _ _ => rfl) fun s r => keeps_bind (keeps_check _) fun _ => keeps_pure _
  | remove =>
    refine settled_args rfl fun _ path id hpath => ?_
    exact settled_single hpath (FsCall.remove · · .fileOrSymlink) (adapters.remove · · .fileOrSymlink)
      (fun _ _ _ => rfl) (fun _ _ => rfl) (fun _ _ => rfl) fun s r => keeps_bind (keeps_check _) fun _ => keeps_pure _
  | removeDir =>
    refine settled_args rfl fun _ path id hpath => ?_
    exact settled_single hpath (FsCall.remove · · .emptyDirectory) (adapters.remove · · .emptyDirectory)
      (fun _ _ _ => rfl) (fun _ _ => rfl) (fun _ _ => rfl) fun s r => keeps_bind (keeps_check _) fun _ => keeps_pure _
  | removeTree =>
    refine settled_args rfl fun _ path id hpath => ?_
    exact settled_single hpath (FsCall.remove · · .tree) (adapters.remove · · .tree)
      (fun _ _ _ => rfl) (fun _ _ => rfl) (fun _ _ => rfl) fun s r => keeps_bind (keeps_check _) fun _ => keeps_pure _
  | rename =>
    refine settled_args rfl fun hlen source id hsource => ?_
    refine settled_path 1 (by exact Nat.one_lt_two) fun destination id' hdestination => ?_
    refine settled_routed Nat.two_pos hsource fun fromRoot fromTarget hfrom => ?_
    refine settled_routed Nat.one_lt_two hdestination fun toRoot toTarget hto => ?_
    refine settled_perform (fun s => ⟨rfl, fun need hneed => ?_, nofun, fun _ _ _ _ _ _ =>
      ⟨rfl, hlen, rfl⟩⟩) fun s r => keeps_bind (keeps_check _) fun _ => keeps_pure _
    simp only [FsCall.checks, List.mem_cons, List.not_mem_nil, or_false] at hneed
    rcases hneed with rfl | rfl
    · exact ⟨fromRoot, fromTarget, hfrom, rfl, rfl⟩
    · exact ⟨toRoot, toTarget, hto, rfl, rfl⟩
  | listDir =>
    refine settled_args rfl fun hlen path id hpath => ?_
    refine settled_routed Nat.one_pos hpath fun root target hrouted => ?_
    refine settled_perform (fun s => ⟨rfl, fun need hneed => ?_, fun _ _ _ _ => ⟨rfl, hlen⟩, nofun⟩)
      fun s r => keeps_bind (keeps_check _) fun _ => keeps_bind (keeps_check _) fun _ =>
        keeps_pure _
    obtain rfl := List.mem_singleton.mp hneed
    exact ⟨root, target, hrouted, rfl, rfl⟩
  | fileSize =>
    refine settled_args rfl fun _ path id hpath => ?_
    exact settled_single hpath (FsCall.metadata · · true) (adapters.metadata · · true) (fun _ _ _ => rfl) (fun _ _ => rfl)
      (fun _ _ => rfl)
      fun s r => keeps_bind (keeps_check _) fun _ => keeps_bind (keeps_check _) fun _ => keeps_pure _
  | isFile | isDir | pathExists =>
    exact settled_args rfl fun _ path id hpath =>
      settled_metadataKind hpath fun _ _ => keeps_pure _

/-! ## The matrix -/

namespace AuthorityLemmas

variable {α β : Type} {adapters : Adapters A F σ} {cap : FilesystemCapability A}

theorem needs_eq_checks {r : CallRecord A σ} (h : r.call.fullyChecked) :
    adapters.needs r = r.call.checks := by
  obtain ⟨before, c, after⟩ := r
  cases c with
  | list a p n | rename a p b q replace => cases h
  | _ => rfl

/-- What the code leaves unchecked holds, and so all of the matrix is kept. -/
theorem granted_of_checked {call : FsBuiltinCall} {s : σ} {r : CallRecord A σ}
    (h : Checked adapters (some cap) call s r)
    (hmeets : MeetsMatrix adapters (some cap) call s) :
    ∀ need ∈ adapters.needs r, Grants (some cap) call.args need := by
  by_cases hfull : r.call.fullyChecked
  · rw [needs_eq_checks hfull]
    exact h.checks
  obtain ⟨builtin, args, maxCollection, line⟩ := call
  obtain ⟨before, c, after⟩ := r
  cases c with
  | list a p n =>
    obtain ⟨hlisting, hlen⟩ := h.list a p n rfl
    obtain rfl : builtin = .listDir := hlisting
    obtain ⟨root, target, hrouted, hadapter, hpath⟩ := h.checks ⟨0, a, p, .list⟩ (by simp [FsCall.checks])
    have hmetadata := hmeets hlen root target hrouted
    intro need hneed
    simp only [Adapters.needs, List.mem_cons, List.not_mem_nil, or_false] at hneed
    rcases hneed with rfl | rfl
    · exact ⟨root, target, hrouted.of_granted hmetadata, hadapter, hpath⟩
    · exact ⟨root, target, hrouted, hadapter, hpath⟩
  | rename a p b q replace =>
    obtain ⟨hrename, hlen, hbefore⟩ := h.rename a p b q replace rfl
    obtain rfl : builtin = .rename := hrename
    obtain rfl : before = s := hbefore
    obtain ⟨fromRoot, source, hfrom, rfl, rfl⟩ := h.checks ⟨0, a, p, .delete⟩ (by simp [FsCall.checks])
    obtain ⟨toRoot, target, hto, rfl, rfl⟩ := h.checks ⟨1, b, q, .create⟩ (by simp [FsCall.checks])
    have hdest := hmeets hlen fromRoot source toRoot target hfrom hto
    intro need hneed
    simp only [Adapters.needs, List.mem_cons] at hneed
    rcases hneed with rfl | hneed
    · exact ⟨fromRoot, source, hfrom, rfl, rfl⟩
    · split at hneed
      · cases hneed
      · next d hd =>
        obtain ⟨rfl, hreplace⟩ := hdest d hd
        rcases List.mem_cons.mp hneed with rfl | hneed
        · exact ⟨toRoot, target, hto, rfl, rfl⟩
        · split at hneed
          · next hreplaces =>
            obtain rfl := List.mem_singleton.mp hneed
            exact ⟨toRoot, target, hto.of_granted (hreplace hreplaces), rfl, rfl⟩
          · cases hneed
  | _ => exact absurd rfl hfull

/-! The calls of the two builtins that leave something unchecked. -/

theorem mem_of_check {x : Except TsumugiError α} {a : α} {f : α → FsM A σ β} {st : FsRun A σ}
    {r : CallRecord A σ} (hx : x = .ok a) (h : r ∈ (f a st).2.calls) :
    r ∈ (((liftM x : FsM A σ α) >>= f) st).2.calls := by
  rw [hx]
  exact h

theorem mem_of_perform {call : FsCall A} {method : σ → Except AdapterError α × σ}
    {f : Except AdapterError α → FsM A σ β} (st : FsRun A σ)
    (hf : ∀ r, Keeps (fun _ => True) (f r)) :
    ⟨st.host, call, (method st.host).2⟩ ∈ ((perform call method >>= f) st).2.calls := by
  obtain ⟨more, hmore⟩ := hf (method st.host).1 (perform call method st).2
  rw [bind_apply]
  exact hmore.calls ▸ List.mem_append_left more (List.mem_append_right _ (List.mem_singleton_self _))

theorem mem_of_route {path : String} {op : FsOperation} {line : Nat} {root : FilesystemRoot A}
    {target : FilesystemTarget} {f : FilesystemRoot A × FilesystemTarget → FsM A σ β}
    {st : FsRun A σ} {r : CallRecord A σ} (ht : cap.target path = .ok (some target))
    (hr : cap.root target.mount = some root) (hop : op ∈ root.operations)
    (h : r ∈ (f (root, target)
      { st with label := some (canonicalResourceLabel target) }).2.calls) :
    r ∈ ((fsRoute cap path op line >>= f) st).2.calls := by
  rw [bind_apply, fsRoute_routed ht hr hop]
  exact h

theorem checkArity_ok {name : String} {args : List Value} {n line : Nat} (h : args.length = n) :
    checkArity name args n line = .ok () := if_neg (not_not.mpr h)

theorem requireStr_of_getElem {args : List Value} {i id : Nat} {name path : String} {line : Nat}
    (h : args[i]? = some (.str id path)) : requireStr args i name line = .ok path := by
  unfold requireStr
  rw [List.getD_eq_getElem?_getD, h]
  rfl

theorem listDir_calls (adapters : Adapters A F σ) (formatFloat : UInt64 → String)
    {args : List Value} (maxCollection line : Nat) {root : FilesystemRoot A}
    {target : FilesystemTarget} (hlen : args.length = 1)
    (h : Routed (some cap) args 0 .list root target) (s : σ) :
    ∃ after, ⟨s, .list root.adapter target.path none, after⟩ ∈
      (dispatchFs adapters formatFloat (some cap) ⟨.listDir, args, maxCollection, line⟩ s).calls := by
  obtain ⟨cap', id, path, hcap, harg, ht, hr, hop⟩ := h
  obtain rfl : cap = cap' := Option.some.inj hcap
  exact ⟨_, mem_of_check (checkArity_ok hlen) <| mem_of_check (requireStr_of_getElem harg) <|
    mem_of_route ht hr hop <| mem_of_perform ⟨s, _, []⟩ fun _ =>
      keeps_bind (keeps_check _) fun _ => keeps_bind (keeps_check _) fun _ => keeps_pure _⟩

theorem rename_calls (adapters : Adapters A F σ) (formatFloat : UInt64 → String)
    {args : List Value} (maxCollection line : Nat)
    {fromRoot toRoot : FilesystemRoot A} {source target : FilesystemTarget}
    (hlen : args.length = 2) (hfrom : Routed (some cap) args 0 .delete fromRoot source)
    (hto : Routed (some cap) args 1 .create toRoot target) (s : σ) :
    ∃ after, ⟨s, .rename fromRoot.adapter source.path toRoot.adapter target.path true, after⟩ ∈
      (dispatchFs adapters formatFloat (some cap) ⟨.rename, args, maxCollection, line⟩ s).calls := by
  obtain ⟨cap', id, path, hcap, harg, ht, hr, hop⟩ := hfrom
  obtain ⟨cap'', id', path', hcap', harg', ht', hr', hop'⟩ := hto
  obtain rfl : cap = cap' := Option.some.inj hcap
  obtain rfl : cap = cap'' := Option.some.inj hcap'
  exact ⟨_, mem_of_check (checkArity_ok hlen) <| mem_of_check (requireStr_of_getElem harg) <|
    mem_of_check (requireStr_of_getElem harg') <| mem_of_route ht hr hop <|
    mem_of_route ht' hr' hop' <| mem_of_perform ⟨s, _, []⟩ fun _ =>
      keeps_bind (keeps_check _) fun _ => keeps_pure _⟩

end AuthorityLemmas

open AuthorityLemmas in
/-- For all adapters, capabilities, calls and hosts: every adapter call has the authority
that the matrix asks for, and a denial does not depend on the host, exactly if `Metadata`
is granted where `list_dir` lists, and the destination of a `rename` lies under the root
that the path names and grants `Delete` where an entry is replaced. -/
theorem authorityLaw_iff (adapters : Adapters A F σ) (formatFloat : UInt64 → String)
    (filesystem : Option (FilesystemCapability A)) (call : FsBuiltinCall) (s : σ) :
    AuthorityLaw adapters formatFloat filesystem call s ↔
      MeetsMatrix adapters filesystem call s := by
  constructor
  · rintro ⟨hcalls, -⟩
    obtain ⟨builtin, args, maxCollection, line⟩ := call
    cases builtin with
    | listDir =>
      intro hlen root target hrouted
      obtain ⟨cap, -, -, rfl, -⟩ := id hrouted
      obtain ⟨after, hmem⟩ :=
        listDir_calls adapters formatFloat maxCollection line hlen hrouted s
      obtain ⟨root', target', hrouted', -, -⟩ :=
        hcalls _ hmem ⟨0, root.adapter, target.path, .metadata⟩ (by simp [Adapters.needs])
      obtain ⟨rfl, rfl⟩ := hrouted.unique hrouted'
      exact hrouted'.granted
    | rename =>
      intro hlen fromRoot source toRoot target hfrom hto d hd
      obtain ⟨cap, -, -, rfl, -⟩ := id hfrom
      obtain ⟨after, hmem⟩ :=
        rename_calls adapters formatFloat maxCollection line hlen hfrom hto s
      have hgranted := hcalls _ hmem
      simp only [Adapters.needs, hd, List.mem_cons] at hgranted
      obtain ⟨toRoot', target', hto', hadapter, -⟩ :=
        hgranted ⟨1, d, target.path, .create⟩ (.inr (.inl rfl))
      obtain ⟨rfl, rfl⟩ := hto.unique hto'
      refine ⟨hadapter.symm, fun hreplaces => ?_⟩
      obtain ⟨toRoot', target', hto', -, -⟩ :=
        hgranted ⟨1, d, target.path, .delete⟩ (.inr (.inr (by simp [hreplaces])))
      obtain ⟨rfl, rfl⟩ := hto.unique hto'
      exact hto'.granted
    | _ => trivial
  · intro hmeets
    cases filesystem with
    | none => exact ⟨by simp [dispatchFs], fun _ => ⟨_, fun _ => rfl, fun _ => ⟨rfl, rfl, rfl⟩⟩⟩
    | some cap =>
      rcases dispatch_settled adapters formatFloat cap call with ⟨e, he, hdeny⟩ | hlog
      · refine ⟨?_, fun _ => ⟨e, he, fun s' => hdeny ⟨s', none, []⟩⟩⟩
        have hnone : (dispatchFs adapters formatFloat (some cap) call s).calls = [] :=
          (hdeny ⟨s, none, []⟩).2.1
        simp [hnone]
      · obtain ⟨new, hne, hnew⟩ := hlog ⟨s, none, []⟩
        have hcalls : (dispatchFs adapters formatFloat (some cap) call s).calls = new := hnew.calls
        refine ⟨?_, fun hnil => absurd (hcalls.symm.trans hnil) hne⟩
        rw [hcalls]
        exact fun r hr => granted_of_checked (hnew.all r hr) hmeets

end Tsumugi.Capability
