import Tsumugi.Audit.Account

/-!
# The account of the link phase

Until the root of the program is charged, live heap is exactly what the records of the
modules take, and `forget` gives all of it back. From the root on a token is alive that
nothing gives back.

Results:
1. `chargeRoot_ends`: what the charges up to the root leave.
2. `begin_ends`: what the link phase leaves, by how far it came.
-/

namespace Tsumugi.Audit

open Budget Word LedgerLemmas AccountLemmas

variable {P : Type}

/-- The client while the modules and the root are charged. -/
structure Loading (c : Client P) : Prop where
  idle : c.ledger.Idle
  committed : ∀ r, notedDelta .committed r c.ledger = c.ledger.committed.of r
  quiet : c.ledger.Quiet
  live : c.ledger.heap.liveBytes = c.held.sum + c.programTokens.sum
  ids : c.ledger.heap.nextId = 1 + c.held.length + c.programTokens.length
  frames : c.frames = []

/-- What the link phase has told nobody yet. -/
abbrev Untold (c : Client P) : Prop := ClientAccount c.programTokens 0 c

theorem Loading.untold {c : Client P} (h : Loading c) : Untold c := by
  refine ⟨h.idle, fun r => (Nat.zero_add _).trans (h.committed r), fun _ _ => ?_, rfl⟩
  rw [h.live, h.frames, List.sum_nil, Nat.add_zero]

namespace LoadingLemmas

variable (prog : Program P)

/-- A request of the link phase that has nothing to do with the heap. -/
theorem loading_steady {c : Client P} (h : Loading c) {ledger : BudgetLedger}
    (hsteady : Steady c.ledger ledger) : Loading { c with ledger } := by
  have hreleased := hsteady.released
  refine ⟨hsteady.idle, fun r => ?_, hreleased.trans h.quiet, ?_, ?_, h.frames⟩
  · have := hsteady.balances r
    have := h.committed r
    dsimp only
    omega
  · rw [hsteady.heap]
    exact h.live
  · rw [hsteady.heap]
    exact h.ids

/-- The error of a refused request leaves the account as it is. -/
theorem loading_convert {c : Client P} (h : Loading c) (stop : ControlStop) (line : Nat) :
    Loading (c.convert prog stop line .noting).2 := by
  cases stop <;> exact ⟨h.idle, h.committed, h.quiet, h.live, h.ids, h.frames⟩

/-- What a request of the link phase does to the client. -/
theorem asking_run (m : Charge Unit) (line : Nat) (c : Client P) :
    (Link.asking prog m line).run c =
      match m.run c.ledger with
      | (.ok (), ledger) => (.ok (), { c with ledger })
      | (.error stop, ledger) =>
        (.error (({ c with ledger } : Client P).convert prog stop line .noting).1,
          { (({ c with ledger } : Client P).convert prog stop line .noting).2 with
            unwinding := some ⟨none, stop,
              (({ c with ledger } : Client P).convert prog stop line .noting).1⟩ }) := rfl

theorem keeps_loading {m : Charge Unit} (hm : Proc.Meets steady m) (line : Nat) :
    Proc.Keeps Loading (Link.asking prog m line) := by
  intro c hc
  have hsteady := hm c.ledger hc.idle
  rw [asking_run]
  rcases hrun : m.run c.ledger with ⟨stop | ⟨⟩, ledger⟩ <;> rw [hrun] at hsteady
  · have h := loading_convert prog (loading_steady hc hsteady) stop line
    exact ⟨h.idle, h.committed, h.quiet, h.live, h.ids, h.frames⟩
  · exact loading_steady hc hsteady

/-- A charge of the heap is granted with an id, or changes nothing, as long as ids are left. -/
theorem newViaHandle_run {l : BudgetLedger} (hids : l.heap.nextId < maxU64) (bytes : Nat)
    (phase : ExecutionPhase) :
    (∃ heap, (Charge.newViaHandle bytes phase).run l = (.ok (), { l with heap }) ∧
        heap.liveBytes = l.heap.liveBytes + bytes ∧ heap.nextId = l.heap.nextId + 1) ∨
      ∃ stop, (Charge.newViaHandle bytes phase).run l = (.error stop, l) := by
  unfold Charge.newViaHandle Charge.heapChargeRaw
  rcases hcharge : l.heap.charge bytes phase with stop | heap
  · exact .inr ⟨stop, Proc.bind_run_error (onHeap_error hcharge)⟩
  · rw [Proc.bind_run_ok (onHeap_ok hcharge)]
    obtain ⟨hlive, hnext⟩ := charge_ok hcharge
    have hid : heap.allocateId = .ok { heap with nextId := heap.nextId + 1 } := by
      unfold AllocationLedger.allocateId
      rw [checkedAdd_eq_some.mpr ⟨by omega, rfl⟩]
    refine .inl ⟨{ heap with nextId := heap.nextId + 1 }, onHeap_ok hid, hlive, ?_⟩
    rw [hnext]

/-- The record of a module, or the root: on a refusal nothing is charged. -/
theorem loading_viaHandle {c : Client P} (h : Loading c)
    (hids : c.held.length + c.programTokens.length < 2 ^ 63) (bytes line : Nat) :
    (∃ ledger, (Link.asking prog (Charge.newViaHandle bytes .link) line).run c =
        (.ok (), { c with ledger }) ∧
      (∀ held, held = c.held ++ [bytes] → Loading { c with ledger, held }) ∧
      ∀ programTokens, programTokens = c.programTokens ++ [bytes] →
        Loading { c with ledger, programTokens }) ∨
    ∃ error t, (Link.asking prog (Charge.newViaHandle bytes .link) line).run c =
        (.error error, t) ∧ Loading t ∧ t.programTokens = c.programTokens := by
  have hnext : c.ledger.heap.nextId < maxU64 := by
    have := h.ids
    unfold maxU64
    omega
  have hlive := h.live
  have hid := h.ids
  rcases newViaHandle_run hnext bytes .link with ⟨heap, hrun, hheap, hheapId⟩ | ⟨stop, hrun⟩
  · refine .inl ⟨_, by rw [asking_run, hrun], ?_, ?_⟩
    · rintro _ rfl
      refine ⟨h.idle, h.committed, h.quiet, ?_, ?_, h.frames⟩ <;>
        simp only [List.sum_append, List.sum_singleton, List.length_append, List.length_singleton]
        <;> omega
    · rintro _ rfl
      refine ⟨h.idle, h.committed, h.quiet, ?_, ?_, h.frames⟩ <;>
        simp only [List.sum_append, List.sum_singleton, List.length_append, List.length_singleton]
        <;> omega
  · have hc := loading_convert prog h stop line
    refine .inr ⟨_, _, by rw [asking_run, hrun], ?_, ?_⟩
    · exact ⟨hc.idle, hc.committed, hc.quiet, hc.live, hc.ids, hc.frames⟩
    · cases stop <;> rfl

/-- What the charges of the modules leave: no token, and no more records than modules. -/
def LoadedUpTo (n : Nat) (c : Client P) : Prop :=
  Loading c ∧ c.programTokens = [] ∧ c.held.length ≤ n

theorem asking_tokens (m : Charge Unit) (line : Nat) (c : Client P) :
    ((Link.asking prog m line).run c).2.programTokens = c.programTokens ∧
      ((Link.asking prog m line).run c).2.held = c.held := by
  rw [asking_run]
  rcases m.run c.ledger with ⟨stop | ⟨⟩, ledger⟩
  · cases stop <;> exact ⟨rfl, rfl⟩
  · exact ⟨rfl, rfl⟩

theorem keeps_loadedUpTo {m : Charge Unit} (hm : Proc.Meets steady m) (line n : Nat) :
    Proc.Keeps (LoadedUpTo n) (Link.asking prog m line) := by
  rintro c ⟨hc, htokens, hlen⟩
  obtain ⟨h, h'⟩ := asking_tokens prog m line c
  exact ⟨keeps_loading prog hm line c hc, h.trans htokens, by rw [h']; exact hlen⟩

/-- How a part of the link phase ends: the records stay exact, whether it is refused or not. -/
def Loads (n k : Nat) (m : Proc (Client P) TsumugiError Unit) : Prop :=
  ∀ c, LoadedUpTo n c → LoadedUpTo (n + k) (m.run c).2

theorem loads_chargeModule (m : LoadedModule) {n : Nat} (hn : n < 2 ^ 63) :
    Loads n 1 (Link.chargeModule prog m) := by
  intro c hc
  have hmono : ∀ {c : Client P}, LoadedUpTo n c → LoadedUpTo (n + 1) c := fun h =>
    ⟨h.1, h.2.1, Nat.le_succ_of_le h.2.2⟩
  unfold Link.chargeModule
  have hsource := keeps_loadedUpTo prog (meets_chargeSource m.byteLen .link) m.line n c hc
  rcases hs : (Link.asking prog (Charge.chargeSource m.byteLen .link) m.line).run c
    with ⟨error | ⟨⟩, c₁⟩ <;> rw [hs] at hsource
  · rw [Proc.bind_run_error hs]
    exact hmono hsource
  rw [Proc.bind_run_ok hs]
  have himport := keeps_loadedUpTo prog (meets_chargeImport m.byteLen .link) m.line n c₁ hsource
  rcases hi : (Link.asking prog (Charge.chargeImport m.byteLen .link) m.line).run c₁
    with ⟨error | ⟨⟩, c₂⟩ <;> rw [hi] at himport
  · rw [Proc.bind_run_error hi]
    exact hmono himport
  rw [Proc.bind_run_ok hi]
  obtain ⟨hloading, htokens, hlen⟩ : LoadedUpTo n c₂ := himport
  have hids : c₂.held.length + c₂.programTokens.length < 2 ^ 63 := by
    rw [htokens, List.length_nil]
    omega
  rcases loading_viaHandle prog hloading hids (Link.importedModuleRecord m.pathBytes) m.line with
    ⟨ledger, hrun, hheld, -⟩ | ⟨error, t, hrun, ht, htokens'⟩
  · rw [Proc.bind_run_ok hrun, Proc.modify_run]
    refine ⟨hheld _ rfl, htokens, ?_⟩
    simp only [List.length_append, List.length_singleton]
    omega
  · rw [Proc.bind_run_error hrun]
    have hheld : t.held = c₂.held := by
      have h := (asking_tokens prog (Charge.newViaHandle (Link.importedModuleRecord m.pathBytes)
        .link) m.line c₂).2
      rwa [hrun] at h
    exact ⟨ht, htokens'.trans htokens, by rw [hheld]; omega⟩

theorem loads_chargeModules (modules : List LoadedModule) {n : Nat}
    (hn : n + modules.length ≤ 2 ^ 63) :
    Loads n modules.length (Link.chargeModules prog modules) := by
  induction modules generalizing n with
  | nil => exact fun c hc => hc
  | cons m rest ih =>
    intro c hc
    rw [List.length_cons] at hn ⊢
    have hmodule := loads_chargeModule prog m (n := n) (by omega) c hc
    unfold Link.chargeModules
    rcases hm : (Link.chargeModule prog m).run c with ⟨error | ⟨⟩, t⟩ <;> rw [hm] at hmodule
    · rw [Proc.bind_run_error hm]
      exact ⟨hmodule.1, hmodule.2.1, le_trans hmodule.2.2 (by omega)⟩
    · rw [Proc.bind_run_ok hm]
      have h := ih (n := n + 1) (by omega) t hmodule
      exact ⟨h.1, h.2.1, le_trans h.2.2 (by omega)⟩

/-- Up to the root: a refusal leaves the records alone, and the root is a token. -/
theorem chargeRoot_ends (input : LinkInput) {c : Client P} (hc : LoadedUpTo 0 c) :
    Loading ((Link.chargeRoot prog input).run c).2 ∧
      ((Link.chargeRoot prog input).run c).2.programTokens =
        if ((Link.chargeRoot prog input).run c).1.isOk then [input.rootBytes] else [] := by
  have hsource := keeps_loadedUpTo prog (meets_chargeSource input.rootSourceBytes .link) 0 0 c hc
  unfold Link.chargeRoot
  rcases hs : (Link.asking prog (Charge.chargeSource input.rootSourceBytes .link) 0).run c
    with ⟨error | ⟨⟩, c₁⟩ <;> rw [hs] at hsource
  · rw [Proc.bind_run_error hs]
    exact ⟨hsource.1, hsource.2.1⟩
  rw [Proc.bind_run_ok hs]
  have hfit := input.modules_fit
  have hmodules := loads_chargeModules prog input.modules (n := 0) (by omega) c₁ hsource
  rcases hm : (Link.chargeModules prog input.modules).run c₁ with ⟨error | ⟨⟩, c₂⟩ <;>
    rw [hm] at hmodules
  · rw [Proc.bind_run_error hm]
    exact ⟨hmodules.1, hmodules.2.1⟩
  rw [Proc.bind_run_ok hm]
  obtain ⟨hloading, htokens, hlen⟩ : LoadedUpTo (0 + input.modules.length) c₂ := hmodules
  have hids : c₂.held.length + c₂.programTokens.length < 2 ^ 63 := by
    rw [htokens, List.length_nil]
    omega
  unfold Link.chargeToken
  rcases loading_viaHandle prog hloading hids input.rootBytes 0 with
    ⟨ledger, hrun, -, hroot⟩ | ⟨error, t, hrun, ht, htokens'⟩
  · rw [Proc.bind_run_ok hrun, Proc.modify_run]
    exact ⟨hroot _ rfl, by rw [htokens]; rfl⟩
  · rw [Proc.bind_run_error hrun]
    exact ⟨ht, htokens'.trans htokens⟩

/-- The tokens of the bodies come after that of the root. -/
def Rooted (rootBytes : Nat) (c : Client P) : Prop :=
  Untold c ∧ ∃ rest, c.programTokens = rootBytes :: rest

theorem rooted_convert {rootBytes : Nat} {c : Client P} (h : Rooted rootBytes c)
    (stop : ControlStop) (line : Nat) : Rooted rootBytes (c.convert prog stop line .noting).2 := by
  obtain ⟨h, rest, htokens⟩ := h
  cases stop <;> exact ⟨⟨h.idle, h.committed, h.heap, rfl⟩, rest, htokens⟩

theorem rooted_chargeToken {rootBytes : Nat} (bytes : Nat) :
    Proc.Keeps (Rooted rootBytes) (Link.chargeToken prog bytes) := by
  intro c hc
  obtain ⟨haccount, rest, htokens⟩ := hc
  have hmoves := heapMoves_newViaHandle bytes .link c.ledger haccount.idle
  unfold Link.chargeToken
  rcases hrun : (Charge.newViaHandle bytes .link).run c.ledger with ⟨stop | ⟨⟩, ledger⟩ <;>
    rw [hrun] at hmoves
  · rw [Proc.bind_run_error (by rw [asking_run, hrun])]
    have hsame : Untold { c with ledger } := account_moves haccount hmoves rfl (Nat.le_refl _)
    have h := rooted_convert prog (⟨hsame, rest, htokens⟩ : Rooted rootBytes { c with ledger })
      stop 0
    exact ⟨⟨h.1.idle, h.1.committed, h.1.heap, rfl⟩, h.2⟩
  · rw [Proc.bind_run_ok (by rw [asking_run, hrun]), Proc.modify_run]
    replace hmoves : Moves bytes 0 c.ledger ledger := hmoves
    refine ⟨⟨hmoves.idle, fun r => ?_, fun hd hquiet => ?_, rfl⟩, rest ++ [bytes], by simp [htokens]⟩
    · have := hmoves.balances r
      have := haccount.committed r
      dsimp only
      omega
    · obtain ⟨hquiet', hle⟩ := hmoves.quiet hquiet
      have := haccount.heap hd hquiet'
      simp only [List.sum_append, List.sum_singleton]
      omega

theorem rooted_chargeBodies {rootBytes : Nat} (bodies : List Nat) :
    Proc.Keeps (Rooted rootBytes) (Link.chargeBodies prog bodies) := by
  induction bodies with
  | nil => exact Proc.keeps_pure _
  | cons bytes rest ih => exact Proc.keeps_bind (rooted_chargeToken prog bytes) fun _ => ih

/-- What `forget` leaves of the ledger. -/
theorem forget_ledger (held : List Nat) (l : BudgetLedger) :
    (held.foldl (fun l bytes => ((Charge.dropTracked bytes).run l).2) l) =
      { l with heap := { l.heap with liveBytes := l.heap.liveBytes - held.sum } } := by
  induction held generalizing l with
  | nil => rfl
  | cons bytes rest ih =>
    rw [List.foldl_cons, ih]
    simp only [Charge.dropTracked, Proc.modify_run, AllocationLedger.release, satSub,
      List.sum_cons, Nat.sub_sub]

theorem loading_forget {c : Client P} (h : Loading c) (htokens : c.programTokens = []) :
    Untold (Link.forget c) ∧ (Link.forget c).ledger.Quiet ∧
      (Link.forget c).ledger.heap.liveBytes = 0 := by
  have hzero : c.ledger.heap.liveBytes - c.held.sum = 0 := by
    rw [h.live, htokens, List.sum_nil, Nat.add_zero, Nat.sub_self]
  refine ⟨⟨?_, fun r => ?_, fun _ _ => ?_, rfl⟩, ?_, ?_⟩ <;>
    simp only [Link.forget, forget_ledger, hzero]
  · exact h.idle
  · exact (Nat.zero_add _).trans (h.committed r)
  · simp [h.frames, htokens]
  · exact h.quiet

theorem rooted_forget {rootBytes : Nat} {c : Client P} (h : Rooted rootBytes c) :
    Rooted rootBytes (Link.forget c) := by
  obtain ⟨haccount, rest, htokens⟩ := h
  refine ⟨⟨?_, ?_, fun hd hquiet => ?_, rfl⟩, rest, htokens⟩ <;>
    simp only [Link.forget, forget_ledger] at *
  · exact haccount.idle
  · exact haccount.committed
  · have := haccount.heap hd hquiet
    simp only [List.sum_nil]
    omega

/-- The notes of the link phase go to the stream. -/
theorem told {c : Client P} (h : Untold c) {d : Totals}
    (hd : ∀ side r, Tallies (d side r) (noteTotals c.ledger.noted side r)) :
    ClientAccount c.programTokens d { c with ledger := { c.ledger with noted := [] } } := by
  refine ⟨h.idle, fun r => ?_, fun hzero _ => ?_, rfl⟩
  · have hr : noteTotals c.ledger.noted .committed r + 0 = c.ledger.committed.of r := by
      rw [Nat.add_zero]
      exact (Nat.zero_add _).symm.trans (h.committed r)
    exact committed_of_tallies (hd .committed r) hr (h.idle.le_maxU64 r)
  · have hr := hd .released .heapBytes
    rw [hzero] at hr
    refine h.heap rfl ?_
    change noteTotals c.ledger.noted .released .heapBytes = 0
    unfold Tallies maxU64 at hr
    omega

theorem loadedUpTo_install (config : BudgetConfig) (interrupts : Interrupts) (program : P) :
    LoadedUpTo 0 (Client.install config interrupts program) :=
  ⟨⟨BudgetLedger.idle_fresh _ _ _, fun r => by cases r <;> rfl, rfl, rfl, rfl, rfl⟩, rfl,
    Nat.le_refl _⟩

end LoadingLemmas

/-- The charges of the program come as far as its root. -/
def ChargesRoot (prog : Program P) (c : Client P) : Prop :=
  ∃ input program, prog.link c.program = (.loaded input, program) ∧
    ((Link.chargeRoot prog input).run { c with program }).1.isOk = true

/-- What the link phase leaves: with the root charged, a token that is never given back;
without it, nothing. -/
structure Linked (prog : Program P) (c : Client P) (answer : BeginAnswer) (c' : Client P)
    (notes : List Note) (tokens : List Nat) : Prop where
  told : ∀ d : Totals, (∀ side r, Tallies (d side r) (noteTotals notes side r)) →
    ClientAccount tokens d c'
  rooted : ChargesRoot prog c → 64 ≤ tokens.sum
  unrooted : ¬ ChargesRoot prog c → noteTotals notes .released .heapBytes = 0 ∧
    c'.ledger.heap.liveBytes = 0 ∧ answer ≠ .ok

namespace LoadingLemmas

variable (prog : Program P)

theorem linked_of_untold {c t : Client P} {answer : BeginAnswer} (h : Untold t)
    (hrooted : ChargesRoot prog c → 64 ≤ t.programTokens.sum)
    (hunrooted : ¬ ChargesRoot prog c → t.ledger.Quiet ∧ t.ledger.heap.liveBytes = 0 ∧
      answer ≠ .ok) :
    Linked prog c answer { t with ledger := { t.ledger with noted := [] } } t.ledger.noted
      t.programTokens :=
  ⟨fun _ hd => told h hd, hrooted, hunrooted⟩

end LoadingLemmas

open LoadingLemmas in
/-- The link phase of a fresh run. -/
theorem begin_linked (prog : Program P) {config : BudgetConfig} {interrupts : Interrupts}
    {program : P} {c' : Client P} {notes : List Note} {answer : BeginAnswer}
    (hbegin : Link.beginExecution prog (.install config interrupts program) =
      (notes, answer, c')) (hanswer : answer ≠ .unwinds) :
    c'.ledger.noted = [] ∧
      ∃ tokens, Linked prog (.install config interrupts program) answer c' notes tokens := by
  generalize hc : Client.install config interrupts program = c at hbegin ⊢
  have hloaded : LoadedUpTo 0 c := hc ▸ loadedUpTo_install config interrupts program
  simp only [Link.beginExecution] at hbegin
  rcases hlink : prog.link c.program with ⟨input | error | _, program'⟩ <;>
    simp only [hlink] at hbegin
  · have hloaded' : LoadedUpTo 0 { c with program := program' } :=
      ⟨⟨hloaded.1.idle, hloaded.1.committed, hloaded.1.quiet, hloaded.1.live, hloaded.1.ids,
        hloaded.1.frames⟩, hloaded.2⟩
    obtain ⟨hloading, htokens⟩ := chargeRoot_ends prog input hloaded'
    have hcharges : ChargesRoot prog c ↔
        ((Link.chargeRoot prog input).run { c with program := program' }).1.isOk = true := by
      refine ⟨?_, fun h => ⟨input, program', hlink, h⟩⟩
      rintro ⟨input', program'', hlink', h⟩
      rw [hlink] at hlink'
      cases hlink'
      exact h
    rw [Link.chargeLink] at hbegin
    rcases hroot : (Link.chargeRoot prog input).run { c with program := program' }
      with ⟨error | ⟨⟩, u⟩ <;> rw [hroot] at hloading htokens hcharges
    · -- refused up to the root: all records are dropped again
      rw [Proc.bind_run_error hroot] at hbegin
      cases hbegin
      have hforget := loading_forget hloading htokens
      refine ⟨rfl, _, linked_of_untold prog hforget.1 (fun h => ?_) fun _ => ⟨hforget.2.1,
        hforget.2.2, by simp⟩⟩
      exact absurd (hcharges.mp h) (by simp [Except.isOk, Except.toBool])
    · rw [Proc.bind_run_ok hroot] at hbegin
      have hrooted : Rooted input.rootBytes u := ⟨hloading.untold, [], htokens⟩
      have hyes : ChargesRoot prog c := hcharges.mpr rfl
      have hlinked : ∀ {t : Client P} {answer : BeginAnswer}, Rooted input.rootBytes t →
          Linked prog c answer { t with ledger := { t.ledger with noted := [] } } t.ledger.noted
            t.programTokens := by
        intro t answer ht
        refine linked_of_untold prog ht.1 (fun _ => ?_) fun h => absurd hyes h
        obtain ⟨rest, hrest⟩ := ht.2
        have := input.root_pos
        rw [hrest, List.sum_cons]
        omega
      have hbodies := rooted_chargeBodies prog input.bodyBytes u hrooted
      rcases hb : (Link.chargeBodies prog input.bodyBytes).run u with ⟨error | ⟨⟩, t⟩ <;>
        rw [hb] at hbodies <;> simp only [hb] at hbegin
      · cases hbegin
        exact ⟨rfl, _, hlinked (rooted_forget hbodies)⟩
      · cases hdepth : input.depthError with
        | none =>
          simp only [hdepth] at hbegin
          cases hbegin
          exact ⟨rfl, _, hlinked hbodies⟩
        | some error =>
          simp only [hdepth] at hbegin
          cases hbegin
          exact ⟨rfl, _, hlinked (rooted_forget hbodies)⟩
  · have hno : ¬ ChargesRoot prog c := by
      rintro ⟨input, program'', hlink', -⟩
      rw [hlink] at hlink'
      cases hlink'
    cases hbegin
    have huntold : Untold { c with program := program' } :=
      ⟨hloaded.1.untold.idle, hloaded.1.untold.committed, hloaded.1.untold.heap, rfl⟩
    refine ⟨rfl, _, linked_of_untold prog huntold (fun h => absurd h hno) fun _ =>
      ⟨hloaded.1.quiet, ?_, by simp⟩⟩
    rw [← hc]
    rfl
  · cases hbegin
    exact absurd rfl hanswer

end Tsumugi.Audit
