/-
Whole runs of the two functions: what their transfers did, the borrowed timeout, and
which of two errors is the result.
-/
import Yams.Deadline

namespace Yams.Deadline

section Endings

variable {deadline : Nat} {original : Option Nat} {α : Type}

/-- The result after a restoration. -/
def afterRestore (result : Except ProtocolError α) (answer : Except ErrorKind Unit) :
    Except ProtocolError α :=
  match result, answer with
  | .error error, _ => .error error
  | .ok _, .error kind => .error (.io kind)
  | .ok a, .ok () => .ok a

/-- The two ways to end are the same. -/
theorem finishRead_eq : @finishRead α = finishWrite := by
  funext original result borrowed
  obtain ⟨current, _ | _⟩ := borrowed
  · cases result <;> rfl
  · cases result with
    | error error => rfl
    | ok a =>
        apply congrArg (Prog.call (DeadlineOp.setTimeout original))
        funext answer
        cases answer <;> rfl

theorem runs_finish {result r : Except ProtocolError α} {borrowed : Borrowed}
    {past trace : List Call}
    (h : Runs exec (finishWrite original result borrowed) past r trace) :
    borrowed.changed = false ∧ trace = past ∧ r = result ∨
      borrowed.changed = true ∧ ∃ answer,
        trace = ⟨.setTimeout original, answer⟩ :: past ∧ r = afterRestore result answer := by
  obtain ⟨current, _ | _⟩ := borrowed
  · left
    cases result with
    | error error =>
        cases h
        exact ⟨rfl, rfl, rfl⟩
    | ok a =>
        cases h
        exact ⟨rfl, rfl, rfl⟩
  · right
    cases h
    rename_i next answer hexec hnext
    obtain ⟨-, rfl⟩ := hexec
    refine ⟨rfl, answer, ?_⟩
    cases result with
    | error error =>
        cases hnext
        exact ⟨rfl, rfl⟩
    | ok a =>
        cases answer with
        | error kind =>
            cases hnext
            exact ⟨rfl, rfl⟩
        | ok done =>
            cases hnext
            exact ⟨rfl, rfl⟩

/-- A run with a changed timeout can end with any answer to the restoration. -/
theorem finish_runs {result : Except ProtocolError α} {borrowed : Borrowed} {past : List Call}
    (hchanged : borrowed.changed = true) (answer : Except ErrorKind Unit) :
    Runs exec (finishWrite original result borrowed) past (afterRestore result answer)
      (⟨.setTimeout original, answer⟩ :: past) := by
  obtain ⟨current, changed⟩ := borrowed
  obtain rfl : changed = true := hchanged
  have hcall : exec past (.setTimeout original) answer (⟨.setTimeout original, answer⟩ :: past) :=
    ⟨trivial, rfl⟩
  apply Runs.call hcall
  cases result with
  | error error => exact .ret _ _
  | ok a => cases answer <;> exact .ret _ _

variable {parts : Option Nat → DeadlineM (Except ProtocolError α × Borrowed)}

/-- The calls before a transfer. -/
def leadIn (original : Option Nat) (now : Nat) : List Call :=
  [⟨.timeout, .ok original⟩, ⟨.now, now⟩]

/-- A run without a transfer, or a transfer and then the end. -/
theorem runs_withDeadline {r : Except ProtocolError α} {trace : List Call}
    (h : Runs exec (withDeadline deadline parts finishWrite) [] r trace) :
    (∃ now, deadline ≤ now ∧ trace = [⟨.now, now⟩] ∧ r = .error .frameDeadlineExceeded) ∨
      (∃ now kind, now < deadline ∧ trace = [⟨.timeout, .error kind⟩, ⟨.now, now⟩] ∧
        r = .error (.io kind)) ∨
      ∃ now original result borrowed past, now < deadline ∧
        Runs exec (parts original) (leadIn original now) (result, borrowed) past ∧
        Runs exec (finishWrite original result borrowed) past r trace := by
  cases h
  rename_i next now hexec hnext
  obtain ⟨-, rfl⟩ := hexec
  change Runs exec (if deadline ≤ now then _ else _) _ _ _ at hnext
  split at hnext
  next hlate =>
    cases hnext
    exact .inl ⟨now, hlate, rfl, rfl⟩
  next hahead =>
    right
    cases hnext
    rename_i next answer hexec hnext
    obtain ⟨-, rfl⟩ := hexec
    rcases answer with kind | original
    · cases hnext
      exact .inl ⟨now, kind, Nat.lt_of_not_le hahead, rfl, rfl⟩
    · right
      obtain ⟨⟨result, borrowed⟩, past, hparts, hfinish⟩ := Runs.bind_inv (parts original) hnext
      exact ⟨now, original, result, borrowed, past, Nat.lt_of_not_le hahead, hparts, hfinish⟩

/-- The same transfer with another answer to the restoration is a run. -/
theorem withDeadline_runs {result : Except ProtocolError α} {borrowed : Borrowed}
    {past : List Call} {now : Nat} (hnow : now < deadline)
    (hparts : Runs exec (parts original) (leadIn original now) (result, borrowed) past)
    (hchanged : borrowed.changed = true) (answer : Except ErrorKind Unit) :
    Runs exec (withDeadline deadline parts finishWrite) [] (afterRestore result answer)
      (⟨.setTimeout original, answer⟩ :: past) := by
  have hlooked : exec [] .now now [⟨.now, now⟩] :=
    ⟨fun earlier hmem => absurd hmem List.not_mem_nil, rfl⟩
  have hasked : exec [⟨.now, now⟩] .timeout (.ok original) (leadIn original now) :=
    ⟨trivial, rfl⟩
  apply Runs.call hlooked
  change Runs exec (if deadline ≤ now then _ else _) _ _ _
  rw [if_neg (Nat.not_le.2 hnow)]
  apply Runs.call hasked
  exact Runs.bind hparts (finish_runs hchanged answer)

end Endings

section Outcomes

variable {deadline : Nat} {original : Option Nat} {borrowed : Borrowed} {bytes : Bytes}
  {past : List Call}

theorem silent_split {trace later earlier : List Call} {instant : Nat}
    (h : Silent deadline trace) (htrace : trace = later ++ ⟨.now, instant⟩ :: earlier)
    (hlate : deadline ≤ instant) : ∀ call ∈ later, transferred call = [] := by
  induction later generalizing trace with
  | nil => exact fun call hmem => absurd hmem List.not_mem_nil
  | cons first later ih =>
      rw [htrace] at h
      intro call hmem
      rcases List.mem_cons.1 hmem with rfl | hlater
      · rcases h.1 with hnone | htimely
        · exact hnone
        · have hreading : instant ∈ readings (later ++ ⟨.now, instant⟩ :: earlier) :=
            List.mem_filterMap.2 ⟨_, List.mem_append_right _ List.mem_cons_self, rfl⟩
          exact absurd (htimely instant hreading) (Nat.not_lt.2 hlate)
      · exact ih h.2 rfl call hlater

/-- A trace without any replacement. -/
theorem keeps_of_no_set {trace : List Call} (hsilent : Silent deadline trace)
    (hnone : ∀ timeout answer, ⟨.setTimeout timeout, answer⟩ ∉ trace) :
    KeepsDeadline deadline trace where
  silent _ _ _ htrace hlate := silent_split hsilent htrace hlate
  timeouts timeout answer hmem := absurd hmem (hnone timeout answer)
  restores timeout hmem := absurd hmem (hnone timeout _)

theorem Borrowing.granted {timeout : Option Nat} {answer : Except ErrorKind Unit}
    (h : Borrowing deadline original borrowed bytes past)
    (hmem : ⟨.setTimeout timeout, answer⟩ ∈ past) :
    (timeout = none → original = none) ∧
      ∀ bound ∈ timeout, granularity ≤ bound ∧ ∀ caller ∈ original, bound ≤ caller := by
  obtain ⟨-, bound, rfl, hleast, hmost⟩ := h.sets timeout answer hmem
  refine ⟨(fun hnone => nomatch hnone), fun other hother => ?_⟩
  rw [← Option.some.inj hother]
  exact ⟨hleast, hmost⟩

/-- Nothing has been replaced. -/
theorem Borrowing.keeps (h : Borrowing deadline original borrowed bytes past)
    (hchanged : borrowed.changed = false) :
    KeepsDeadline deadline past ∧ Restored past := by
  have hnone := h.inForce
  rw [hchanged] at hnone
  refine ⟨⟨?_, ?_, ?_⟩, ?_⟩
  · exact fun _ _ _ htrace hlate => silent_split h.silent htrace hlate
  · exact fun timeout answer hmem => ⟨original, h.caller, h.granted hmem⟩
  · intro timeout hmem
    have hreplaced := List.findSome?_eq_none_iff.1 hnone _ hmem
    cases hreplaced
  · intro other _ timeout htimeout
    rw [hnone] at htimeout
    cases htimeout

/-- The timeout of a caller that was replaced is no shorter than the system allows. -/
theorem Borrowing.granularity_le_caller (h : Borrowing deadline original borrowed bytes past)
    (hchanged : borrowed.changed = true) : ∀ caller ∈ original, granularity ≤ caller := by
  intro caller hcaller
  obtain ⟨-, instant, -, hshort⟩ := h.shortened hchanged
  obtain rfl := hcaller
  exact Nat.le_of_lt (timeoutForDeadline_ne_iff.1 fun heq => hshort (congrArg some heq.symm)).1

/-- A replaced timeout is given back at the end, or fails to be. -/
theorem Borrowing.restored (h : Borrowing deadline original borrowed bytes past)
    (hchanged : borrowed.changed = true) (answer : Except ErrorKind Unit) :
    KeepsDeadline deadline (⟨.setTimeout original, answer⟩ :: past) ∧
      (Restored (⟨.setTimeout original, answer⟩ :: past) ↔ answer = .ok ()) := by
  have hcaller := List.mem_cons_of_mem ⟨.setTimeout original, answer⟩ h.caller
  refine ⟨⟨?_, ?_, ?_⟩, ?_⟩
  · have hsilent : Silent deadline (⟨.setTimeout original, answer⟩ :: past) :=
      ⟨.inl rfl, h.silent⟩
    exact fun _ _ _ htrace hlate => silent_split hsilent htrace hlate
  · intro timeout found hmem
    refine ⟨original, hcaller, ?_⟩
    rcases List.mem_cons.1 hmem with heq | hpast
    · injection heq with hop
      injection hop with htimeout
      rw [htimeout]
      refine ⟨id, fun bound hbound => ⟨h.granularity_le_caller hchanged bound hbound, ?_⟩⟩
      intro caller hcaller
      exact Nat.le_of_eq (Option.some.inj (hbound.symm.trans hcaller))
    · exact h.granted hpast
  · exact fun _ _ => ⟨original, answer, past, rfl, h.caller⟩
  · cases answer with
    | ok done =>
        refine ⟨fun _ => rfl, fun _ other hother timeout htimeout => ?_⟩
        rw [← Option.some.inj htimeout]
        rcases List.mem_cons.1 hother with heq | hpast
        · cases heq
        · exact (h.callers other hpast).symm
    | error kind =>
        refine ⟨fun hrestored => ?_, fun hok => nomatch hok⟩
        have hinForce := h.inForce
        rw [hchanged] at hinForce
        exact absurd (hrestored original hcaller borrowed.current hinForce)
          (h.shortened hchanged).1

end Outcomes

section Frames

variable {deadline : Nat} {α : Type} {parts : Option Nat → DeadlineM (Except ProtocolError α × Borrowed)}
  {whole : α → Bytes → Prop} {within : Bytes → Prop}

/-- What a run transferred, when it succeeds, and what holds of its calls. -/
structure FrameOutcome (deadline : Nat) (program : DeadlineM (Except ProtocolError α))
    (whole : α → Bytes → Prop) (within : Bytes → Prop) (result : Except ProtocolError α)
    (trace : List Call) : Prop where
  moved : within (transferredBy trace)
  ok : ∀ a, result = .ok a ↔
    whole a (transferredBy trace) ∧ Timely deadline trace ∧ Restored trace
  keeps : KeepsDeadline deadline trace
  precedence : Precedence program
    ((∃ a, whole a (transferredBy trace)) ∧ Timely deadline trace) result trace

/-- What is to be transferred is something, and shows the result. -/
structure Transfers (whole : α → Bytes → Prop) (within : Bytes → Prop) : Prop where
  nothing : within []
  something : ∀ a, ¬ whole a []
  within : ∀ a bytes, whole a bytes → within bytes
  unique : ∀ a b bytes, whole a bytes → whole b bytes → a = b

/-- A run that fails before it transfers anything. -/
theorem FrameOutcome.refused {program : DeadlineM (Except ProtocolError α)}
    {trace : List Call} (htransfers : Transfers whole within) (error : ProtocolError)
    (hmoved : transferredBy trace = []) (hsilent : Silent deadline trace)
    (hset : ∀ timeout answer, ⟨.setTimeout timeout, answer⟩ ∉ trace) :
    FrameOutcome deadline program whole within (.error error) trace where
  moved := by
    rw [hmoved]
    exact htransfers.nothing
  ok a := by
    rw [hmoved]
    exact ⟨(fun hok => nomatch hok), fun hwhole => absurd hwhole.1 (htransfers.something a)⟩
  keeps := keeps_of_no_set hsilent hset
  precedence :=
    ⟨fun _ _ _ original answer past htrace _ =>
      absurd (htrace ▸ List.mem_cons_self) (hset original answer),
    fun _ original kind past htrace _ =>
      absurd (htrace ▸ List.mem_cons_self) (hset original (.error kind))⟩

/-- A transfer that ends with the timeout of the caller in force all along. -/
theorem outcome_unchanged {program : DeadlineM (Except ProtocolError α)}
    {original : Option Nat} {result : Except ProtocolError α} {borrowed : Borrowed}
    {past : List Call} (htransfers : Transfers whole within)
    (h : Parted deadline original whole within (result, borrowed) past)
    (hchanged : borrowed.changed = false) :
    FrameOutcome deadline program whole within result past := by
  have hprecedence (bytes : Bytes) (hborrowing : Borrowing deadline original borrowed bytes past)
      (other : Option Nat) (answer : Except ErrorKind Unit) (before : List Call)
      (htrace : past = ⟨.setTimeout other, answer⟩ :: before)
      (hcaller : ⟨.timeout, .ok other⟩ ∈ before) : False := by
    have hset : ⟨.setTimeout other, answer⟩ ∈ past := htrace ▸ List.mem_cons_self
    have hcallerPast : ⟨.timeout, .ok other⟩ ∈ past :=
      htrace ▸ List.mem_cons_of_mem _ hcaller
    exact (hborrowing.sets other answer hset).1 (hborrowing.callers other hcallerPast)
  cases result with
  | error error =>
      obtain ⟨bytes, hborrowing, hwithin, hincomplete⟩ := h
      obtain ⟨hkeeps, -⟩ := hborrowing.keeps hchanged
      rw [← hborrowing.moved] at hwithin hincomplete
      refine ⟨hwithin, fun a => ⟨(fun hok => nomatch hok), fun hwhole => ?_⟩, hkeeps, ?_⟩
      · exact absurd hwhole.1 (hincomplete hwhole.2.1 a)
      · exact ⟨fun _ _ _ other answer before htrace hcaller =>
          (hprecedence bytes hborrowing other answer before htrace hcaller).elim,
          fun _ other kind before htrace hcaller =>
            (hprecedence bytes hborrowing other (.error kind) before htrace hcaller).elim⟩
  | ok a =>
      obtain ⟨bytes, hborrowing, htimely, hwhole⟩ := h
      obtain ⟨hkeeps, hrestored⟩ := hborrowing.keeps hchanged
      rw [← hborrowing.moved] at hwhole
      refine ⟨htransfers.within a _ hwhole, fun b => ⟨fun hok => ?_, fun hother => ?_⟩, hkeeps, ?_⟩
      · rw [← Except.ok.inj hok]
        exact ⟨hwhole, htimely, hrestored⟩
      · rw [htransfers.unique a b _ hwhole hother.1]
      · exact ⟨fun _ _ _ other answer before htrace hcaller =>
          (hprecedence bytes hborrowing other answer before htrace hcaller).elim,
          fun _ other kind before htrace hcaller =>
            (hprecedence bytes hborrowing other (.error kind) before htrace hcaller).elim⟩

theorem timely_set {original : Option Nat} {answer : Except ErrorKind Unit} {past : List Call} :
    Timely deadline (⟨.setTimeout original, answer⟩ :: past) ↔ Timely deadline past :=
  Iff.rfl

theorem transferredBy_set {original : Option Nat} {answer : Except ErrorKind Unit}
    {past : List Call} :
    transferredBy (⟨.setTimeout original, answer⟩ :: past) = transferredBy past :=
  List.append_nil _

/-- A transfer that ends with a restoration. -/
theorem outcome_changed {original : Option Nat} {result : Except ProtocolError α}
    {borrowed : Borrowed} {past : List Call} {now : Nat} (htransfers : Transfers whole within)
    (h : Parted deadline original whole within (result, borrowed) past) (hnow : now < deadline)
    (hparts : Runs exec (parts original) (leadIn original now) (result, borrowed) past)
    (hchanged : borrowed.changed = true) (answer : Except ErrorKind Unit) :
    FrameOutcome deadline (withDeadline deadline parts finishWrite) whole within
      (afterRestore result answer) (⟨.setTimeout original, answer⟩ :: past) := by
  cases result with
  | error error =>
      obtain ⟨bytes, hborrowing, hwithin, hincomplete⟩ := h
      obtain ⟨hkeeps, -⟩ := hborrowing.restored hchanged answer
      rw [← hborrowing.moved] at hwithin hincomplete
      refine ⟨?_, fun a => ⟨(fun hok => nomatch hok), fun hwhole => ?_⟩, hkeeps, ?_, ?_⟩
      · rwa [transferredBy_set]
      · rw [transferredBy_set] at hwhole
        exact absurd hwhole.1 (hincomplete hwhole.2.1 a)
      · intro found hfound _ other again before htrace _ another
        injection htrace with hcall hbefore
        injection hcall with hop
        injection hop with hother
        rw [← hother, ← hbefore, ← Except.error.inj hfound]
        exact withDeadline_runs hnow hparts hchanged another
      · rintro ⟨⟨a, hwhole⟩, htimely⟩
        rw [transferredBy_set] at hwhole
        exact absurd hwhole (hincomplete htimely a)
  | ok a =>
      obtain ⟨bytes, hborrowing, htimely, hwhole⟩ := h
      obtain ⟨hkeeps, hrestored⟩ := hborrowing.restored hchanged answer
      rw [← hborrowing.moved] at hwhole
      refine ⟨?_, fun b => ?_, hkeeps, ?_, ?_⟩
      · rw [transferredBy_set]
        exact htransfers.within a _ hwhole
      · rw [transferredBy_set, hrestored]
        cases answer with
        | error kind =>
            exact ⟨(fun hok => nomatch hok), fun hother => nomatch hother.2.2⟩
        | ok done =>
            constructor
            · intro hok
              rw [← Except.ok.inj hok]
              exact ⟨hwhole, htimely, rfl⟩
            · intro hother
              rw [htransfers.unique b a _ hother.1 hwhole]
              rfl
      · intro _ _ hincomplete
        refine absurd ⟨⟨a, ?_⟩, htimely⟩ hincomplete
        rwa [transferredBy_set]
      · intro _ other kind before htrace _
        injection htrace with hcall _
        injection hcall with _ hanswer
        rw [hanswer]
        rfl

/-- Every run of a function whose transfers end as they should. -/
theorem outcome_withDeadline (htransfers : Transfers whole within)
    (hparts : ∀ original past, Borrowing deadline original ⟨original, false⟩ [] past →
      Timely deadline past →
      Alone exec (parts original) (Parted deadline original whole within) past)
    {r : Except ProtocolError α} {trace : List Call}
    (h : Runs exec (withDeadline deadline parts finishWrite) [] r trace) :
    FrameOutcome deadline (withDeadline deadline parts finishWrite) whole within r trace := by
  rcases runs_withDeadline h with ⟨now, -, rfl, rfl⟩ | ⟨now, kind, -, rfl, rfl⟩ |
    ⟨now, original, result, borrowed, past, hnow, htransfer, hfinish⟩
  · have hsilent : Silent deadline [⟨.now, now⟩] := ⟨.inl rfl, trivial⟩
    apply FrameOutcome.refused htransfers _ rfl hsilent
    intro timeout answer hmem
    cases List.mem_singleton.1 hmem
  · have hsilent : Silent deadline [⟨.timeout, .error kind⟩, ⟨.now, now⟩] :=
      ⟨.inl rfl, .inl rfl, trivial⟩
    apply FrameOutcome.refused htransfers _ rfl hsilent
    intro timeout answer hmem
    rcases List.mem_cons.1 hmem with heq | hpast
    · cases heq
    · cases List.mem_singleton.1 hpast
  · have htimely : Timely deadline (leadIn original now) := by
      intro instant hmem
      rw [List.mem_singleton.1 hmem]
      exact hnow
    have hparted := htransfer.outlined (hparts original _ borrowing_start htimely)
    rcases runs_finish hfinish with ⟨hchanged, rfl, rfl⟩ | ⟨hchanged, answer, rfl, rfl⟩
    · exact outcome_unchanged htransfers hparted hchanged
    · exact outcome_changed htransfers hparted hnow htransfer hchanged answer

theorem frameOf_ne_nil (body : Bytes) : frameOf body ≠ [] :=
  fun hnil => nomatch (List.append_eq_nil_iff.1 hnil).1

theorem transfers_write (body : Bytes) :
    Transfers (fun (_ : Unit) bytes => bytes = frameOf body) (· <+: frameOf body) where
  nothing := List.nil_prefix
  something _ hwhole := frameOf_ne_nil body hwhole.symm
  within _ _ hwhole := hwhole ▸ List.prefix_rfl
  unique _ _ _ _ _ := rfl

theorem transfers_read (limit : Nat) : Transfers (WholeRead limit) (PartRead limit) where
  nothing := .inl (Nat.zero_le _)
  something body hwhole := by
    obtain ⟨header, hlength, -, -, hbytes⟩ := hwhole
    rw [(List.append_eq_nil_iff.1 hbytes.symm).1] at hlength
    cases hlength
  within body bytes hwhole := by
    obtain ⟨header, hlength, hbody, hlimit, rfl⟩ := hwhole
    exact .inr ⟨header, body, hlength, Nat.le_of_eq hbody, hbody ▸ hlimit, rfl⟩
  unique body other bytes hbody hother := by
    obtain ⟨header, hlength, -, -, rfl⟩ := hbody
    obtain ⟨found, hfound, -, -, hbytes⟩ := hother
    exact (List.append_inj hbytes (hlength.trans hfound.symm)).2

/-- In every run of the two functions a prefix of the frame is transferred, nothing after
a late reading; the result is `ok` exactly when all of it was transferred in time and
the timeout of the caller is in force again; and the timeout is never set too short or too
long, and given back whenever it was changed. -/
theorem frames_within_deadline (deadline limit : Nat) :
    (∀ (body : Bytes) result trace,
      Runs exec (writeFrameWithDeadline deadline body limit) [] result trace →
      FrameOutcome deadline (writeFrameWithDeadline deadline body limit)
        (fun _ bytes => bytes = frameOf body) (· <+: frameOf body) result trace) ∧
    ∀ result trace, Runs exec (readFrameWithDeadline deadline limit) [] result trace →
      FrameOutcome deadline (readFrameWithDeadline deadline limit) (WholeRead limit)
        (PartRead limit) result trace := by
  constructor
  · intro body result trace h
    unfold writeFrameWithDeadline at h ⊢
    cases hsize : validateFrameSize body limit with
    | error error =>
        rw [hsize] at h
        cases h
        have hsilent : Silent deadline [] := trivial
        apply FrameOutcome.refused (transfers_write body) error rfl hsilent
        exact fun timeout answer hmem => absurd hmem List.not_mem_nil
    | ok done =>
        rw [hsize] at h
        exact outcome_withDeadline (transfers_write body)
          (fun original past => writeParts_spec) h
  · intro result trace h
    unfold readFrameWithDeadline at h ⊢
    rw [finishRead_eq] at h ⊢
    exact outcome_withDeadline (transfers_read limit) (fun original past => readParts_spec) h

end Frames

namespace DeadlineWitness

/-- An empty frame, written within four seconds by a caller that allows five. -/
def trace : List Call :=
  [⟨.setTimeout (some 5000000000), .ok ()⟩, ⟨.now, (30 : Nat)⟩, ⟨.write [0, 0, 0, 0], .ok 4⟩,
    ⟨.setTimeout (some 3999999980), .ok ()⟩, ⟨.now, (20 : Nat)⟩,
    ⟨.timeout, .ok (some 5000000000)⟩, ⟨.now, (10 : Nat)⟩]

theorem now_exec {past : List Call} (now : Nat)
    (h : ∀ earlier ∈ readings past, earlier ≤ now) :
    exec past .now now (⟨.now, now⟩ :: past) := ⟨h, rfl⟩

theorem set_exec (past : List Call) (timeout : Option Nat) :
    exec past (.setTimeout timeout) (.ok ()) (⟨.setTimeout timeout, .ok ()⟩ :: past) :=
  ⟨trivial, rfl⟩

theorem pass_runs :
    Runs exec (transferPass 4000000000 (some 5000000000)
      (fun written => !decide (written < [0, 0, 0, 0].length)) (writeOnce [0, 0, 0, 0])
      (0, ⟨some 5000000000, false⟩)) (leadIn (some 5000000000) 10)
      (.inl (4, ⟨some 3999999980, true⟩)) trace.tail := by
  have hwrite : exec trace.tail.tail.tail (.write [0, 0, 0, 0]) (.ok 4) trace.tail.tail := by
    refine ⟨?_, rfl⟩
    intro count hcount
    rw [← Except.ok.inj hcount]
    decide
  apply Runs.call (now_exec 20 (by decide))
  apply Runs.call (set_exec _ (some 3999999980))
  apply Runs.call hwrite
  apply Runs.call (now_exec 30 (by decide))
  exact .ret _ _

theorem header_runs :
    Runs exec (writeAllWithDeadline 4000000000 (some 5000000000) [0, 0, 0, 0]
      ⟨some 5000000000, false⟩) (leadIn (some 5000000000) 10)
      (.ok 4, ⟨some 3999999980, true⟩) trace.tail :=
  .pass pass_runs (.exit (.ret _ _) (.ret _ _))

theorem parts_runs :
    Runs exec (writeParts 4000000000 (some 5000000000) []) (leadIn (some 5000000000) 10)
      (.ok (), ⟨some 3999999980, true⟩) trace.tail :=
  header_runs.bind (.exit (.ret _ _) (.ret _ _))

theorem runs : Runs exec (writeFrameWithDeadline 4000000000 [] 0) [] (.ok ()) trace :=
  @withDeadline_runs 4000000000 (some 5000000000) Unit
    (fun original => writeParts 4000000000 original []) (.ok ()) ⟨some 3999999980, true⟩ _ 10
    (by decide) parts_runs rfl (.ok ())

/-- The empty frame was written in time and the timeout given back. -/
theorem frames_within_deadline_here :
    transferredBy trace = frameOf [] ∧ Timely 4000000000 trace ∧ Restored trace :=
  (((frames_within_deadline 4000000000 0).1 [] _ _ runs).ok ()).1 rfl

end DeadlineWitness

end Yams.Deadline
