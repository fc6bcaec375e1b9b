import Tsumugi.Audit.Client
import Tsumugi.Audit.Drive
import Tsumugi.Budget.LedgerLaw

/-!
# The account of the client

Between two actions of the evaluator every cumulative counter of the ledger is what the
stream has been told, together with what the ledger has noted since; and live heap covers
the backings, the frames and the tokens of the program that are alive, as long as no
release has been told.

Results:
1. `next_cases`, `charge_cases`: what an action of the client can be.
2. `account_invariant`: the account is kept by every action.
-/

namespace Tsumugi.Audit

open Budget Word LedgerLemmas TallyLemmas

variable {P : Type}

/-- All of the client but its program. -/
def Client.view (c : Client P) : Client Unit where
  program := ()
  ledger := c.ledger
  installed := c.installed
  held := c.held
  frames := c.frames
  programTokens := c.programTokens
  lastBudgetResource := c.lastBudgetResource
  unwinding := c.unwinding
  committed := c.committed
  effects := c.effects

/-! ## The actions of the client -/

/-- What one action is. -/
inductive NextCase (prog : Program P) (c : Client P) : Action → Client P → Prop
  /-- A call of the accumulator that waits. -/
  | taken {note : Note} {noted : List Note} : c.ledger.noted = note :: noted →
      NextCase prog c (.note note) { c with ledger := { c.ledger with noted } }
  /-- An error on its way out. -/
  | failing {u : Unwinding} : c.ledger.noted = [] → c.unwinding = some u →
      NextCase prog c (.fails u.error) c
  | charged (point : ChargePoint) (line : Nat) (program : P) : c.ledger.noted = [] →
      c.unwinding = none →
      NextCase prog c Client.silent ({ c with program }.charge prog point line)
  | released (release : Release) (program : P) : c.ledger.noted = [] → c.unwinding = none →
      NextCase prog c Client.silent ({ c with program }.release release)
  | hosted (call : HostCall) (program : P) : c.ledger.noted = [] → c.unwinding = none →
      NextCase prog c (.note (.hostCall call.events))
        { c with program, effects := c.effects || decide (call.effectStatus ≠ .none) }
  | affected (program : P) : c.ledger.noted = [] → c.unwinding = none →
      NextCase prog c Client.silent { c with program, effects := true }
  /-- Any other action leaves all but the program as it is. -/
  | idled {action : Action} (program : P) : c.ledger.noted = [] → c.unwinding = none →
      (∀ n, action ≠ .note n) →
      (∀ error, action = .fails error → ErrorKind.isBudget error.kind = false) →
      NextCase prog c action { c with program }

theorem next_cases (prog : Program P) (c : Client P) :
    NextCase prog c (c.next prog).1 (c.next prog).2 := by
  unfold Client.next
  split
  next note noted hnoted => exact .taken hnoted
  next hnoted =>
    split
    next u hunwinding => exact .failing hnoted hunwinding
    next hunwinding =>
      unfold Client.step
      rcases hstep : prog.next c.program c.ledger with ⟨step, program⟩
      cases step with
      | charge point line => exact .charged point line program hnoted hunwinding
      | release release => exact .released release program hnoted hunwinding
      | host call => exact .hosted call program hnoted hunwinding
      | effect => exact .affected program hnoted hunwinding
      | fails error =>
        refine .idled program hnoted hunwinding (by simp) fun e he => ?_
        cases he
        exact error.not_budget
      | _ => exact .idled program hnoted hunwinding (by simp) (by simp)

/-- What becomes of a request. -/
inductive ChargeCase (prog : Program P) (c : Client P) (point : ChargePoint) (line : Nat) :
    Client P → Prop
  | granted {ledger : BudgetLedger} : (point.ask c.held).run c.ledger = (.ok (), ledger) →
      ChargeCase prog c point line ({ c with ledger }.hold point)
  | refused {ledger : BudgetLedger} {stop : ControlStop} :
      (point.ask c.held).run c.ledger = (.error stop, ledger) →
      ChargeCase prog c point line ({ c with ledger }.refuse prog point stop line)

theorem charge_cases (prog : Program P) (c : Client P) (point : ChargePoint) (line : Nat) :
    ChargeCase prog c point line (c.charge prog point line) := by
  unfold Client.charge
  rcases hask : (point.ask c.held).run c.ledger with ⟨stop | ⟨⟩, ledger⟩
  · exact .refused hask
  · exact .granted hask

/-! ## The account -/

/-- The account of the client, with what the stream has been told. `tokens` are those of the
program. -/
structure ClientAccount (tokens : List Nat) (d : Totals) (c : Client P) : Prop where
  idle : c.ledger.Idle
  committed : ∀ r, d .committed r + notedDelta .committed r c.ledger = c.ledger.committed.of r
  heap : d .released .heapBytes = 0 → c.ledger.Quiet →
    c.held.sum + c.frames.sum + c.programTokens.sum ≤ c.ledger.heap.liveBytes
  tokens : c.programTokens = tokens

namespace AccountLemmas

variable {tokens : List Nat} {d : Totals} {c : Client P}

/-- A call of the ledger that moves at least what the client takes to be alive. -/
theorem account_moves {c' : Client P} {taken given : Nat} (h : ClientAccount tokens d c)
    (hmoves : Moves taken given c.ledger c'.ledger)
    (htokens : c'.programTokens = c.programTokens)
    (halive : c'.held.sum + c'.frames.sum + given ≤ c.held.sum + c.frames.sum + taken) :
    ClientAccount tokens d c' := by
  refine ⟨hmoves.idle, fun r => ?_, fun hd hquiet => ?_, htokens.trans h.tokens⟩
  · have := hmoves.balances r
    have := h.committed r
    omega
  · obtain ⟨hquiet', hle⟩ := hmoves.quiet hquiet
    have := h.heap hd hquiet'
    rw [htokens]
    omega

theorem account_release (h : ClientAccount tokens d c) (release : Release) :
    ClientAccount tokens d (c.release release) := by
  cases release with
  | drop index =>
    simp only [Client.release]
    split
    next bytes hbytes =>
      obtain ⟨front, back, hheld, -, herase⟩ := exists_split hbytes
      refine account_moves h (moves_dropTracked h.idle bytes) rfl ?_
      simp only [herase, List.sum_append]
      simp only [hheld, List.sum_append, List.sum_cons]
      omega
    next => exact h
  | frame =>
    simp only [Client.release]
    split
    next bytes frames hframes =>
      refine account_moves h (moves_releaseHeap h.idle bytes) rfl ?_
      simp only [hframes, List.sum_cons]
      omega
    next => exact h

theorem account_releases (h : ClientAccount tokens d c) (releases : List Release) :
    ClientAccount tokens d (releases.foldl Client.release c) := by
  induction releases generalizing c with
  | nil => exact h
  | cons release releases ih => exact ih (account_release h release)

/-- What a request moves is what the client then takes to be alive. -/
def Covers (held : List Nat) (point : ChargePoint) (taken given : Nat) : Prop :=
  ∀ c : Client P, c.held = held →
    (c.hold point).held.sum + (c.hold point).frames.sum + given ≤
      c.held.sum + c.frames.sum + taken

/-- How a request ends: a refusal leaves more alive than before, if it changes anything. -/
def Asks (P : Type) (held : List Nat) (point : ChargePoint) (r : Except ControlStop Unit)
    (s t : BudgetLedger) : Prop :=
  s.Idle → Moves 0 0 s t ∧
    (r.isOk → ∃ taken given, Moves taken given s t ∧ Covers (P := P) held point taken given)

theorem asks_of_heapMoves {held : List Nat} {point : ChargePoint} {taken : Nat} {m : Charge Unit}
    (hm : HeapMoves taken 0 m) (hcovers : Covers (P := P) held point taken 0) :
    Proc.Ends (Asks P held point) m := by
  intro s hs
  have h := hm s hs
  refine ⟨h.mono (Nat.zero_le _) (Nat.le_refl _), fun hok => ⟨taken, 0, ?_, hcovers⟩⟩
  rwa [if_pos hok] at h

theorem asks_of_meets {held : List Nat} {point : ChargePoint} {m : Charge Unit}
    (hm : Proc.Meets steady m) (hcovers : Covers (P := P) held point 0 0) :
    Proc.Ends (Asks P held point) m := asks_of_heapMoves (heapMoves_of_meets hm) hcovers

theorem meets_checkCollectionSize (size : Nat) :
    Proc.Meets steady (ChargePoint.checkCollectionSize size) := by
  refine Proc.meets_bind (Proc.meets_gets _) fun limit => ?_
  exact Proc.meets_ite (Proc.meets_stop fun _ h => .refl h) (Proc.meets_pure _)

theorem asks_ask (held : List Nat) (point : ChargePoint) :
    Proc.Ends (Asks P held point) (point.ask held) := by
  -- a request that is no heap leaves what is alive as it is
  have hsame : ∀ c : Client P, c.hold point = c →
      (c.hold point).held.sum + (c.hold point).frames.sum + 0 ≤ c.held.sum + c.frames.sum + 0 :=
    fun c hc => by rw [hc]
  cases point with
  | fuel => exact asks_of_meets (meets_chargeFuel _ _) fun c _ => hsame c rfl
  | collection size =>
    exact asks_of_meets (meets_checkCollectionElements _ _) fun c _ => hsame c rfl
  | string byteLen => exact asks_of_meets (meets_chargeString _ _) fun c _ => hsame c rfl
  | rendered bytes => exact asks_of_meets (meets_checkRendered _ _) fun c _ => hsame c rfl
  | input payloadBytes => exact asks_of_meets (meets_chargeInput _ _) fun c _ => hsame c rfl
  | output payloadBytes => exact asks_of_meets (meets_chargeOutput _ _) fun c _ => hsame c rfl
  | hostRequest requestBytes =>
    exact asks_of_meets (meets_chargeHostCallRequest _ _) fun c _ => hsame c rfl
  | hostResponse responseBytes =>
    exact asks_of_meets (meets_chargeHostResponseBytes _ _) fun c _ => hsame c rfl
  | builtinFuel => exact asks_of_meets (meets_chargeFuel _ _) fun c _ => hsame c rfl
  | builtinRendered bytes =>
    exact asks_of_meets (meets_checkRendered _ _) fun c _ => hsame c rfl
  | collectionSize size =>
    exact asks_of_meets (meets_checkCollectionSize size) fun c _ => hsame c rfl
  | adapter stop =>
    exact asks_of_meets (Proc.meets_stop fun _ h => .refl h) fun c _ => hsame c rfl
  | tracked bytes =>
    refine asks_of_heapMoves (heapMoves_newTracked bytes _) fun c _ => ?_
    simp only [Client.hold, List.sum_append, List.sum_singleton]
    omega
  | detach bytes =>
    refine asks_of_heapMoves (heapMoves_newTracked bytes _) fun c _ => ?_
    simp only [Client.hold, List.sum_append, List.sum_singleton]
    omega
  | viaHandle bytes =>
    refine asks_of_heapMoves (heapMoves_newViaHandle bytes _) fun c _ => ?_
    simp only [Client.hold, List.sum_append, List.sum_singleton]
    omega
  | frame bytes =>
    refine asks_of_heapMoves (heapMoves_chargeHeap bytes _) fun c _ => ?_
    simp only [Client.hold, List.sum_cons]
    omega
  | resize index newBytes =>
    simp only [ChargePoint.ask]
    split
    next oldBytes hold =>
      obtain ⟨front, back, hheld, hset, -⟩ := exists_split hold
      intro s hs
      obtain ⟨hmoves, hok⟩ := heapMoves_retrack oldBytes newBytes .run s hs
      refine ⟨hmoves, fun h => ⟨newBytes, oldBytes, hok h, fun c hc => ?_⟩⟩
      simp only [Client.hold, hc, hset, List.sum_append, List.sum_cons]
      simp only [hheld, List.sum_append, List.sum_cons]
      omega
    next hnone =>
      refine asks_of_meets (Proc.meets_pure _) fun c hc => ?_
      have hlen : held.length ≤ index := List.getElem?_eq_none_iff.mp hnone
      simp only [Client.hold, hc, List.set_eq_of_length_le hlen]
      omega
  | adopt oldBytes newBytes =>
    intro s hs
    have h := (heapMoves_retrack oldBytes newBytes .run s hs).1
    exact ⟨h, fun _ => ⟨0, 0, h, fun c _ => hsame c rfl⟩⟩

variable (prog : Program P)

/-- A conversion leaves the account as it is. -/
theorem account_convert (h : ClientAccount tokens d c) (stop : ControlStop) (line : Nat)
    (conversion : Conversion) : ClientAccount tokens d (c.convert prog stop line conversion).2 := by
  cases conversion with
  | raw => exact h
  | noting => cases stop <;> exact ⟨h.idle, h.committed, h.heap, h.tokens⟩

theorem account_refuse (h : ClientAccount tokens d c) (point : ChargePoint) (stop : ControlStop)
    (line : Nat) : ClientAccount tokens d (c.refuse prog point stop line) := by
  have hc := account_convert prog h stop line point.conversion
  simp only [Client.refuse]
  split
  · have hr := account_releases hc (prog.unwind (c.convert prog stop line point.conversion).2.program).1
    exact ⟨hr.idle, hr.committed, hr.heap, hr.tokens⟩
  · exact ⟨hc.idle, hc.committed, hc.heap, hc.tokens⟩

theorem hold_ledger (c : Client P) (point : ChargePoint) :
    (c.hold point).ledger = c.ledger ∧ (c.hold point).programTokens = c.programTokens := by
  cases point <;> exact ⟨rfl, rfl⟩

theorem account_charge (h : ClientAccount tokens d c) (point : ChargePoint) (line : Nat) :
    ClientAccount tokens d (c.charge prog point line) := by
  have hends := asks_ask (P := P) c.held point c.ledger h.idle
  have hcase := charge_cases prog c point line
  generalize c.charge prog point line = c' at hcase ⊢
  cases hcase with
  | @granted ledger hask =>
    rw [hask] at hends
    obtain ⟨taken, given, hmoves, hcovers⟩ := hends.2 rfl
    obtain ⟨hledger, htokens⟩ := hold_ledger { c with ledger } point
    have hmoves' : Moves taken given c.ledger (({ c with ledger } : Client P).hold point).ledger := by
      rw [hledger]
      exact hmoves
    exact account_moves h hmoves' htokens (hcovers { c with ledger } rfl)
  | @refused ledger stop hask =>
    rw [hask] at hends
    have hc : ClientAccount tokens d { c with ledger } := account_moves h hends.1 rfl (Nat.le_refl _)
    exact account_refuse prog hc point stop line

/-- An event of a host call is no charge. -/
theorem hostCall_delta (call : HostCall) (side : Side) (resource : BudgetResource) :
    (Note.hostCall call.events).delta side resource = 0 := rfl

/-- A counter never passes its range, so that what the stream has been told is exact. -/
theorem committed_of_tallies {a b n m : Nat} (h : Tallies a b) (hm : b + n = m)
    (hmax : m ≤ maxU64) : a + n = m := by
  unfold Tallies at h
  omega

/-- The sums that change by a note which is not a call of the accumulator. -/
theorem account_silent {d' : Totals} {n : Note} (h : ClientAccount tokens d c)
    (hn : ∀ side resource, n.delta side resource = 0)
    (hd : ∀ side resource, Tallies (d' side resource) (d side resource + n.delta side resource)) :
    ClientAccount tokens d' c := by
  refine ⟨h.idle, fun r => ?_, fun hzero hquiet => ?_, h.tokens⟩
  · have hr := hd .committed r
    rw [hn, Nat.add_zero] at hr
    exact committed_of_tallies hr (h.committed r) (h.idle.le_maxU64 r)
  · have hr := hd .released .heapBytes
    rw [hn, Nat.add_zero, hzero] at hr
    refine h.heap ?_ hquiet
    unfold Tallies maxU64 at hr
    omega

/-- A call of the accumulator goes from the ledger to the stream. -/
theorem account_taken {d' : Totals} {note : Note} {noted : List Note} (h : ClientAccount tokens d c)
    (hnoted : c.ledger.noted = note :: noted)
    (hd : ∀ side resource, Tallies (d' side resource) (d side resource + note.delta side resource)) :
    ClientAccount tokens d' { c with ledger := { c.ledger with noted } } := by
  have hdelta : ∀ side r, notedDelta side r c.ledger = note.delta side r +
      notedDelta side r { c.ledger with noted } := by
    intro side r
    simp [notedDelta, hnoted]
  refine ⟨h.idle, fun r => ?_, fun hzero hquiet => ?_, h.tokens⟩
  · have hr := h.committed r
    rw [hdelta] at hr
    exact committed_of_tallies (hd .committed r) (by rw [Nat.add_assoc]; exact hr) (h.idle.le_maxU64 r)
  · have hr := hd .released .heapBytes
    rw [hzero] at hr
    have hsum : d .released .heapBytes + note.delta .released .heapBytes = 0 := by
      unfold Tallies maxU64 at hr
      omega
    refine h.heap (by omega) ?_
    rw [BudgetLedger.Quiet, hdelta]
    have : notedDelta .released .heapBytes { c.ledger with noted } = 0 := hquiet
    omega

end AccountLemmas

open AccountLemmas in
/-- Every action of the client keeps its account. -/
theorem account_invariant (prog : Program P) (config : BudgetConfig) (interrupts : Interrupts)
    (tokens : List Nat) :
    Invariant (ledgerCore prog config interrupts) Client.view (ClientAccount tokens) where
  cancel _ := rfl
  deadline _ := rfl
  exit _ := rfl
  clear _ := rfl
  usage h := congrArg (·.ledger.usage) h
  congr h hview := by
    have hledger := congrArg Client.ledger hview
    have hheld := congrArg Client.held hview
    have hframes := congrArg Client.frames hview
    have htokens := congrArg Client.programTokens hview
    simp only [Client.view] at hledger hheld hframes htokens
    refine ⟨hledger ▸ h.idle, hledger ▸ h.committed, ?_, htokens ▸ h.tokens⟩
    rw [← hledger, ← hheld, ← hframes, ← htokens]
    exact h.heap
  startSlice _ h := ⟨h.idle, h.committed, h.heap, h.tokens⟩
  note := by
    intro d d' c c' n h hnext hd
    have hcase := next_cases prog c
    rw [show c.next prog = (.note n, c') from hnext] at hcase
    -- what no event shows leaves the sums as they are
    have hsilent : ∀ {c : Client P}, ClientAccount tokens d c → Action.note n = Client.silent →
        ClientAccount tokens d' c := by
      intro c h hn
      cases hn
      exact account_silent h (fun _ _ => rfl) hd
    generalize haction : Action.note n = action at hcase
    cases hcase with
    | taken hnoted =>
      cases haction
      exact account_taken h hnoted hd
    | failing => cases haction
    | charged point line program =>
      refine hsilent (account_charge prog ?_ point line) haction
      exact ⟨h.idle, h.committed, h.heap, h.tokens⟩
    | released release program =>
      refine hsilent (account_release ?_ release) haction
      exact ⟨h.idle, h.committed, h.heap, h.tokens⟩
    | hosted call program =>
      cases haction
      have h' : ClientAccount tokens d' c := account_silent h (hostCall_delta call) hd
      exact ⟨h'.idle, h'.committed, h'.heap, h'.tokens⟩
    | affected program =>
      have h' := hsilent h haction
      exact ⟨h'.idle, h'.committed, h'.heap, h'.tokens⟩
    | idled program hnoted hunwinding hne => exact absurd haction.symm (hne n)
  step := by
    intro d c c' action h hnext hne
    have hcase := next_cases prog c
    rw [show c.next prog = (action, c') from hnext] at hcase
    cases hcase with
    | taken => exact absurd rfl (hne _)
    | failing => exact h
    | charged => exact absurd rfl (hne _)
    | released => exact absurd rfl (hne _)
    | hosted => exact absurd rfl (hne _)
    | affected => exact absurd rfl (hne _)
    | idled program => exact ⟨h.idle, h.committed, h.heap, h.tokens⟩

end Tsumugi.Audit
