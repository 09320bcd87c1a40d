import Deadpool.Lts
import Mathlib.Logic.Function.Basic

/-!
# Two processes binding the same Unix socket path

`_bind_unix` of `deadpool/remote/_transport.py`, run by two processes on one pathname.  Each call is
a control point (`Pc`); every system call on the pathname is a step of its own, so the two calls
interleave freely between the checks.  The pathname may hold anything at first, also a socket on
which a third process listens.

The kernel gives a new socket any inode number that no open socket has: a number may come back once
its file is gone.  `connect` on a listening socket may be answered, time out (`_unix_socket_is_live`
takes that for a dead socket) or fail otherwise.

Principal result: `bound_path_kept` — in every run in which no call makes its second probe while the
other call's socket at the pathname is bound but not yet listening, or lets the probe of a listening
one time out, no socket is given the inode number that the other call is about to remove, and nothing
is replaced between a last `lstat` and its `unlink`, the pathname of a socket that a call has bound is
not removed by the other call, and the two calls do not both return.
-/

set_option autoImplicit false

namespace Deadpool.Remote.BindUnix

inductive Kind where
  | socket
  | symlink
  | other
  deriving DecidableEq, Repr

/-- What `lstat` sees of the pathname; the device is the same throughout. -/
structure File where
  ino : Nat
  kind : Kind
  deriving DecidableEq, Repr

/-- `stale_policy`. -/
inductive StalePolicy where
  | fail
  | forceUnlink
  deriving DecidableEq, Repr

/-- What `_bind_unix` raises. -/
inductive BindError where
  /-- from `mkdir` or `_validate_unix_directory` -/
  | directory
  /-- `refusing unexpected Unix socket path type` -/
  | unexpectedType
  /-- `FileExistsError(path)` -/
  | fileExists
  /-- `Unix socket is already live` -/
  | alreadyLive
  /-- `EADDRINUSE`, from `_address_in_use` or from `bind` -/
  | addressInUse
  | fileNotFound
  | osError
  deriving DecidableEq, Repr

/-- Control points of `_bind_unix`; each names the next system call. -/
inductive Pc where
  /-- `mkdir` and `_validate_unix_directory` -/
  | start
  /-- `path.exists()` -/
  | exists
  /-- `path.is_symlink()`, after `exists` said no -/
  | isSymlink
  /-- the first `path.lstat()` -/
  | lstat
  /-- `_unix_socket_is_live`, the first time or `again`; `info` is the identity seen first -/
  | probe (again : Bool) (info : Nat)
  /-- the last `path.lstat()` -/
  | finalLstat (info : Nat)
  /-- `path.unlink()`, the identity having been compared -/
  | unlink (identity : Nat)
  /-- `sock.bind(str(path))` -/
  | bind
  /-- bound, before `bound = path.lstat()` -/
  | identify (own : Nat)
  /-- `os.chown` and `os.chmod` -/
  | configure (own identity : Nat)
  /-- `sock.listen(config.backlog)` -/
  | listen (own identity : Nat)
  /-- the call has returned its `BoundListener` -/
  | listening (own identity : Nat)
  /-- in the handler, before `sock.close()` -/
  | close (own : Nat) (identity : Option Nat) (e : BindError)
  /-- in the handler, before `path.lstat()` -/
  | cleanLstat (identity : Nat) (e : BindError)
  /-- in the handler, before `path.unlink()` -/
  | cleanUnlink (identity : Nat) (e : BindError)
  | failed (e : BindError)
  deriving DecidableEq, Repr

/-- The socket of a call that is bound and that the call has not given up. -/
def Pc.sock : Pc → Option Nat
  | .identify own | .configure own _ | .listen own _ | .listening own _ => some own
  | _ => none

/-- The socket of a call that is not closed. -/
def Pc.open : Pc → Option Nat
  | .close own _ _ => some own
  | pc => pc.sock

/-- The identity the call removes unless its last `lstat` sees another. -/
def Pc.aims : Pc → Option Nat
  | .finalLstat identity | .unlink identity | .close _ (some identity) _ | .cleanLstat identity _
  | .cleanUnlink identity _ => some identity
  | _ => none

def Pc.isListening : Pc → Bool
  | .listening _ _ => true
  | _ => false

structure State where
  path : Option File
  /-- a socket on which a third process listens -/
  foreign : Option Nat
  calls : Bool → Pc

/-- What `connect` does where somebody listens. -/
inductive Connect where
  | answer
  | timeout
  | error
  deriving DecidableEq, Repr

/-- What the environment decides in one step. -/
inductive Event where
  | advance
  /-- the directory checks, `chown` and `chmod`, `listen`, or the removal; `false` if it raises -/
  | attempt (ok : Bool)
  /-- for a symlink, whether its target exists -/
  | exists (target : Bool)
  | connect (c : Connect)
  /-- the inode number of the new socket, or another failure than `EADDRINUSE` -/
  | bind (ino : Option Nat)
  deriving DecidableEq, Repr

/-- Which of the two calls moves, and how. -/
structure Label where
  who : Bool
  event : Event
  deriving DecidableEq, Repr

def State.goto (s : State) (b : Bool) (pc : Pc) : State :=
  { s with calls := Function.update s.calls b pc }

/-- Somebody accepts connections at this file. -/
def State.accepts (s : State) (f : File) : Bool :=
  f.kind = .socket ∧
    (s.foreign = some f.ino ∨ ∃ b, (s.calls b).isListening ∧ (s.calls b).sock = some f.ino)

/-- `_unix_socket_is_live`; `none` if another error than the three it names leaves it. -/
def State.unixSocketIsLive (s : State) : Connect → Option Bool
  | .error => none
  | c =>
    match s.path with
    | some f => some (s.accepts f && c = .answer)
    | none => some false

/-- After `identity == (current.st_dev, current.st_ino)`: where the call goes for the file it saw. -/
def unlinkIfIdentity (path : Option File) (identity : Nat) (missing same different : Pc) : Pc :=
  match path with
  | none => missing
  | some current => if current.ino = identity then same else different

/-- One step of call `b` at `pc`. -/
def callStep (policy : StalePolicy) (s : State) (b : Bool) : Pc → Event → Option State
  | .start, .attempt ok => some (s.goto b (if ok then .exists else .failed .directory))
  | .exists, .exists target =>
    match s.path with
    | none => some (s.goto b .isSymlink)
    | some f => some (s.goto b (if f.kind = .symlink ∧ !target then .isSymlink else .lstat))
  | .isSymlink, .advance =>
    some (s.goto b (if s.path.any (·.kind = .symlink) then .lstat else .bind))
  | .lstat, .advance =>
    match s.path with
    | none => some (s.goto b (.failed .fileNotFound))
    | some info =>
      some (s.goto b
        (if info.kind ≠ .socket then .failed .unexpectedType
        else if policy ≠ .forceUnlink then .failed .fileExists
        else .probe false info.ino))
  | .probe again info, .connect c =>
    match s.unixSocketIsLive c with
    | none => some (s.goto b (.failed .osError))
    | some true => some (s.goto b (.failed (if again then .addressInUse else .alreadyLive)))
    | some false => some (s.goto b (if again then .finalLstat info else .probe true info))
  | .finalLstat info, .advance =>
    some (s.goto b (unlinkIfIdentity s.path info .bind (.unlink info) (.failed .addressInUse)))
  | .unlink _, .attempt ok =>
    if !ok then some (s.goto b (.failed .osError))
    else if s.path = none then some (s.goto b (.failed .fileNotFound))
    else some ({ s with path := none }.goto b .bind)
  | .bind, .bind ino =>
    match ino with
    | none => some (s.goto b (.failed .osError))
    | some ino =>
      if s.path.isSome then some (s.goto b (.failed .addressInUse))
      else if (s.calls (!b)).open = some ino ∨ s.foreign = some ino then none
      else some ({ s with path := some ⟨ino, .socket⟩ }.goto b (.identify ino))
  | .identify own, .advance =>
    match s.path with
    | none => some (s.goto b (.close own none .fileNotFound))
    | some bound => some (s.goto b (.configure own bound.ino))
  | .configure own identity, .attempt ok =>
    some (s.goto b (if ok then .listen own identity else .close own (some identity) .osError))
  | .listen own identity, .attempt ok =>
    some (s.goto b (if ok then .listening own identity else .close own (some identity) .osError))
  | .close _ identity e, .advance =>
    match identity with
    | none => some (s.goto b (.failed e))
    | some identity => some (s.goto b (.cleanLstat identity e))
  | .cleanLstat identity e, .advance =>
    some (s.goto b
      (unlinkIfIdentity s.path identity (.failed e) (.cleanUnlink identity e) (.failed e)))
  | .cleanUnlink _ e, .attempt ok =>
    if !ok then some (s.goto b (.failed .osError))
    else if s.path = none then some (s.goto b (.failed .fileNotFound))
    else some ({ s with path := none }.goto b (.failed e))
  | _, _ => none

def step (policy : Bool → StalePolicy) (s : State) (l : Label) : Option State :=
  callStep (policy l.who) s l.who (s.calls l.who) l.event

def system (policy : Bool → StalePolicy) (path : Option File) (foreign : Option Nat) :
    Lts.System State Label :=
  ⟨⟨path, foreign, fun _ => .start⟩, step policy⟩

/-! ## The conditions -/

/-- What the last `lstat` of a removal saw is still there, or nothing is. -/
def State.unreplaced (s : State) (identity : Nat) : Bool := s.path.all (·.ino = identity)

/-- Nothing is replaced between the last `lstat` and the `unlink`, the window that
`_unlink_if_identity` documents. -/
def NoReplacement (s : State) (l : Label) : Bool :=
  match s.calls l.who with
  | .unlink identity | .cleanUnlink identity _ => s.unreplaced identity
  | _ => true

/-- The second probe tells: if the pathname holds the socket that the other call has bound, that call
listens, and the probe does not time out. -/
def State.tells (s : State) (other : Pc) (c : Connect) : Bool :=
  match other.sock with
  | some own => s.path ≠ some ⟨own, .socket⟩ || (other.isListening && c ≠ .timeout)
  | none => true

/-- Besides, a second probe tells, and no socket gets the inode number that the other call is about
to remove. -/
def Careful (s : State) (l : Label) : Bool :=
  NoReplacement s l &&
    match s.calls l.who, l.event with
    | .probe true _, .connect c => s.tells (s.calls (!l.who)) c
    | .bind, .bind (some ino) => (s.calls (!l.who)).aims ≠ some ino
    | _, _ => true

/-! ## The invariant -/

/-- The bound socket of a call is the one at the pathname, there is at most one, and neither call is
about to remove that of the other. -/
structure Inv (s : State) : Prop where
  named : ∀ b own, (s.calls b).sock = some own → s.path = some ⟨own, .socket⟩
  alone : ∀ b own, (s.calls b).sock = some own → (s.calls (!b)).sock = none
  spared : ∀ b identity, (s.calls b).aims = some identity → (s.calls (!b)).sock ≠ some identity

theorem inv_init (policy : Bool → StalePolicy) (path : Option File) (foreign : Option Nat) :
    Inv (system policy path foreign).init where
  named _ _ h := by cases h
  alone _ _ h := by cases h
  spared _ _ h := by cases h

section Steps

variable {s : State} {b : Bool}

@[simp] theorem goto_calls_self (pc : Pc) : (s.goto b pc).calls b = pc := by
  simp [State.goto]

@[simp] theorem goto_calls_other (pc : Pc) : (s.goto b pc).calls (!b) = s.calls (!b) := by
  simp [State.goto]

/-- A statement about both calls, from what it says of the one that moved and of the other. -/
theorem forall_call {P : Bool → Prop} (hself : P b) (hother : P (!b)) : ∀ c, P c := by
  intro c
  by_cases hc : c = b
  · exact hc ▸ hself
  · rw [Bool.eq_not_of_ne hc]
    exact hother

/-- A step that moves only the control point: it leaves or keeps the socket, and keeps aiming at what
it aimed at or takes aim at what is not the other's. -/
theorem Inv.goto (h : Inv s) {pc : Pc}
    (hsock : pc.sock = (s.calls b).sock ∨ pc.sock = none)
    (haims : ∀ identity, pc.aims = some identity → (s.calls (!b)).sock ≠ some identity) :
    Inv (s.goto b pc) := by
  have hkept : ∀ own, pc.sock = some own → (s.calls b).sock = some own := by
    intro own hown
    rcases hsock with hsock | hsock
    · exact hsock ▸ hown
    · rw [hsock] at hown
      cases hown
  refine ⟨forall_call (b := b) ?_ ?_, forall_call (b := b) ?_ ?_, forall_call (b := b) ?_ ?_⟩
  · intro own hown
    exact h.named b own (hkept own (by simpa using hown))
  · intro own hown
    exact h.named (!b) own (by simpa using hown)
  · intro own hown
    simpa using h.alone b own (hkept own (by simpa using hown))
  · intro own hown
    have hnone := h.alone (!b) own (by simpa using hown)
    rw [Bool.not_not] at hnone ⊢
    rcases hsock with hsock | hsock <;> simp [hsock, hnone]
  · intro identity hid
    simpa using haims identity (by simpa using hid)
  · intro identity hid
    have hne := h.spared (!b) identity (by simpa using hid)
    rw [Bool.not_not] at hne ⊢
    rcases hsock with hsock | hsock <;> simp [hsock, hne]

/-- A step that takes no aim and has no socket to lose. -/
theorem Inv.quiet (h : Inv s) {pc : Pc} (hsock : pc.sock = none) (haims : pc.aims = none) :
    Inv (s.goto b pc) :=
  h.goto (.inr hsock) fun identity hid => by simp [haims] at hid

/-- A removal of what the call aims at. -/
theorem Inv.remove (h : Inv s) {pc : Pc} {identity : Nat}
    (haimed : (s.calls b).aims = some identity) (hthere : s.unreplaced identity = true)
    (hsock : pc.sock = none) :
    Inv ({ s with path := none }.goto b pc) := by
  have hother : (s.calls (!b)).sock = none := by
    cases hown : (s.calls (!b)).sock with
    | none => rfl
    | some own =>
      -- the file that is removed would be the other's socket
      have hnamed := h.named (!b) own hown
      simp only [State.unreplaced, hnamed, Option.all_some, decide_eq_true_eq] at hthere
      exact absurd (hthere ▸ hown) (h.spared b identity haimed)
  have hnone : ∀ c, (({ s with path := none }.goto b pc).calls c).sock = none :=
    forall_call (b := b) (by simpa using hsock) (by simpa [State.goto] using hother)
  refine ⟨?_, ?_, ?_⟩
  · intro c own hown
    rw [hnone c] at hown
    cases hown
  · intro c own hown
    exact hnone _
  · intro c x hx
    rw [hnone]
    simp

/-- A new socket where there was no file. -/
theorem Inv.bind (h : Inv s) {ino : Nat} (hpath : s.path = none)
    (haims : (s.calls (!b)).aims ≠ some ino) :
    Inv ({ s with path := some ⟨ino, .socket⟩ }.goto b (.identify ino)) := by
  have hother : (s.calls (!b)).sock = none := by
    cases hown : (s.calls (!b)).sock with
    | none => rfl
    | some own =>
      rw [h.named (!b) own hown] at hpath
      cases hpath
  refine ⟨forall_call (b := b) ?_ ?_, forall_call (b := b) ?_ ?_, forall_call (b := b) ?_ ?_⟩
  · intro own hown
    rw [goto_calls_self] at hown
    cases hown
    rfl
  · intro own hown
    rw [goto_calls_other, hother] at hown
    cases hown
  · intro own hown
    rw [goto_calls_other, hother]
  · intro own hown
    rw [goto_calls_other, hother] at hown
    cases hown
  · intro identity hid
    rw [goto_calls_self] at hid
    cases hid
  · intro identity hid
    rw [goto_calls_other] at hid
    rw [Bool.not_not, goto_calls_self]
    rintro hino
    cases hino
    exact haims hid

/-- The second probe of a call found nobody listening: what the call saw first is not the other's
bound socket. -/
theorem spared_of_tells {info : Nat} {c : Connect} (h : Inv s)
    (hlive : s.unixSocketIsLive c = some false) (htells : s.tells (s.calls (!b)) c = true) :
    (s.calls (!b)).sock ≠ some info := by
  intro hown
  have hpath := h.named (!b) info hown
  simp only [State.tells, hown, hpath, ne_eq, not_true_eq_false, decide_false, Bool.false_or,
    Bool.and_eq_true, decide_eq_true_eq] at htells
  obtain ⟨hlisten, hc⟩ := htells
  have haccepts : s.accepts ⟨info, .socket⟩ = true := by
    simp only [State.accepts, decide_eq_true_eq]
    exact ⟨trivial, .inr ⟨!b, hlisten, hown⟩⟩
  cases c with
  | answer => simp [State.unixSocketIsLive, hpath, haccepts] at hlive
  | timeout => simp at hc
  | error => cases hlive

/-- A call that has its socket aims at nothing of the other's when it gives up. -/
theorem spared_of_alone (h : Inv s) {own identity : Nat} (hsock : (s.calls b).sock = some own) :
    (s.calls (!b)).sock ≠ some identity := by
  rw [h.alone b own hsock]
  simp

end Steps

theorem inv_step {policy : Bool → StalePolicy} {s s' : State} {l : Label} (h : Inv s)
    (hcond : Careful s l = true) (hs : step policy s l = some s') : Inv s' := by
  obtain ⟨b, e⟩ := l
  simp only [Careful, NoReplacement, Bool.and_eq_true] at hcond
  obtain ⟨hkeep, hcare⟩ := hcond
  simp only [step] at hs
  generalize hpc : s.calls b = pc at hs hkeep hcare
  have hsock : (s.calls b).sock = pc.sock := by rw [hpc]
  have haims : (s.calls b).aims = pc.aims := by rw [hpc]
  unfold callStep at hs
  split at hs
  · -- the directory
    cases hs
    split
    · exact h.quiet rfl rfl
    · exact h.quiet rfl rfl
  · -- `path.exists()`
    split at hs
    · cases hs
      exact h.quiet rfl rfl
    · cases hs
      split
      · exact h.quiet rfl rfl
      · exact h.quiet rfl rfl
  · -- `path.is_symlink()`
    cases hs
    split
    · exact h.quiet rfl rfl
    · exact h.quiet rfl rfl
  · -- the first `lstat`
    split at hs
    · cases hs
      exact h.quiet rfl rfl
    · cases hs
      split
      · exact h.quiet rfl rfl
      · split
        · exact h.quiet rfl rfl
        · exact h.quiet rfl rfl
  · -- a probe
    rename_i again info c
    split at hs
    · cases hs
      exact h.quiet rfl rfl
    · cases hs
      exact h.quiet rfl rfl
    · rename_i hlive
      cases hs
      cases again with
      | false => exact h.quiet rfl rfl
      | true =>
        refine h.goto (.inr rfl) fun identity hid => ?_
        cases hid
        exact spared_of_tells h hlive hcare
  · -- the last `lstat`
    rename_i info
    cases hs
    unfold unlinkIfIdentity
    split
    · exact h.quiet rfl rfl
    · split
      · refine h.goto (.inr rfl) fun identity hid => ?_
        cases hid
        exact h.spared b info haims
      · exact h.quiet rfl rfl
  · -- `unlink`
    split at hs
    · cases hs
      exact h.quiet rfl rfl
    · split at hs
      · cases hs
        exact h.quiet rfl rfl
      · cases hs
        exact h.remove haims hkeep rfl
  · -- `bind`
    split at hs
    · cases hs
      exact h.quiet rfl rfl
    · split at hs
      · cases hs
        exact h.quiet rfl rfl
      · rename_i hpath
        split at hs
        · cases hs
        · cases hs
          refine h.bind (by simpa using hpath) ?_
          simpa using hcare
  · -- the identity of the new socket
    split at hs
    · cases hs
      exact h.quiet rfl rfl
    · cases hs
      exact h.goto (.inl hsock.symm) fun identity hid => (by cases hid)
  · -- `chown` and `chmod`
    cases hs
    split
    · exact h.goto (.inl hsock.symm) fun identity hid => (by cases hid)
    · exact h.goto (.inr rfl) fun identity _ => spared_of_alone h hsock
  · -- `listen`
    cases hs
    split
    · exact h.goto (.inl hsock.symm) fun identity hid => (by cases hid)
    · exact h.goto (.inr rfl) fun identity _ => spared_of_alone h hsock
  · -- the handler
    split at hs
    · cases hs
      exact h.quiet rfl rfl
    · cases hs
      refine h.goto (.inr rfl) fun identity hid => ?_
      cases hid
      exact h.spared b _ haims
  · cases hs
    unfold unlinkIfIdentity
    split
    · exact h.quiet rfl rfl
    · split
      · refine h.goto (.inr rfl) fun identity hid => ?_
        cases hid
        exact h.spared b _ haims
      · exact h.quiet rfl rfl
  · split at hs
    · cases hs
      exact h.quiet rfl rfl
    · split at hs
      · cases hs
        exact h.quiet rfl rfl
      · cases hs
        exact h.remove haims hkeep rfl
  · cases hs

/-- **A bound path is kept.**  In every careful run, whatever the pathname holds at first: while the
socket of a call is bound, in particular once the call listens on it, the pathname names it; and the
two calls do not both return a listener. -/
theorem bound_path_kept (policy : Bool → StalePolicy) (path : Option File) (foreign : Option Nat)
    {s : State} (h : (system policy path foreign).Reach (fun s l => Careful s l = true) s) :
    (∀ b own, (s.calls b).sock = some own → s.path = some ⟨own, .socket⟩) ∧
      ¬ ((s.calls false).isListening = true ∧ (s.calls true).isListening = true) := by
  have hinv : Inv s :=
    h.invariant (inv_init policy path foreign) fun _ _ _ _ hi hc hs => inv_step hi hc hs
  refine ⟨hinv.named, ?_⟩
  rintro ⟨hfalse, htrue⟩
  cases hown : s.calls false with
  | listening own identity =>
    have hnone : (s.calls true).sock = none := hinv.alone false own (by rw [hown]; rfl)
    cases hother : s.calls true with
    | listening own' identity' => simp [hother, Pc.sock] at hnone
    | _ => simp [hother, Pc.isListening] at htrue
  | _ => simp [hown, Pc.isListening] at hfalse

/-! ## Runs -/

/-- Both calls may remove a stale path. -/
def forced : Bool → StalePolicy := fun _ => .forceUnlink

/-- A call that finds no file, up to where its socket is bound. -/
def bindFresh (b : Bool) (ino : Nat) : List Label :=
  [⟨b, .attempt true⟩, ⟨b, .exists false⟩, ⟨b, .advance⟩, ⟨b, .bind (some ino)⟩]

/-- A call that finds a socket and probes it twice. -/
def probeTwice (b : Bool) : List Label :=
  [⟨b, .attempt true⟩, ⟨b, .exists false⟩, ⟨b, .advance⟩, ⟨b, .connect .answer⟩,
   ⟨b, .connect .answer⟩]

/-- From the last `lstat` to a new bound socket. -/
def replaceWith (b : Bool) (ino : Nat) : List Label :=
  [⟨b, .advance⟩, ⟨b, .attempt true⟩, ⟨b, .bind (some ino)⟩]

/-- From the bound socket to the returned listener. -/
def finish (b : Bool) : List Label := [⟨b, .advance⟩, ⟨b, .attempt true⟩, ⟨b, .attempt true⟩]

/-- One call replaces a stale socket; the other then finds it live. -/
def secondFindsLive : List Label :=
  probeTwice false ++ replaceWith false 6 ++ finish false ++
    [⟨true, .attempt true⟩, ⟨true, .exists false⟩, ⟨true, .advance⟩, ⟨true, .connect .answer⟩]

theorem bound_path_kept_secondFindsLive :
    ∃ s, (system forced (some ⟨5, .socket⟩) none).runWhile Careful
        (system forced (some ⟨5, .socket⟩) none).init secondFindsLive = some s ∧
      s.path = some ⟨6, .socket⟩ ∧ s.calls true = .failed .alreadyLive := by
  obtain ⟨s, hs, hcalls⟩ := Option.map_eq_some_iff.mp
    (show ((system forced (some ⟨5, .socket⟩) none).runWhile Careful
      (system forced (some ⟨5, .socket⟩) none).init secondFindsLive).map
        (fun s => (s.calls false, s.calls true)) =
      some (.listening 6 6, .failed .alreadyLive) by decide +kernel)
  obtain ⟨hfirst, hsecond⟩ := Prod.mk.inj hcalls
  have hkept := (bound_path_kept forced _ _ (Lts.System.Reach.of_runWhile .init _ hs)).1
  exact ⟨s, hs, hkept false 6 (by rw [hfirst]; rfl), hsecond⟩

/-- Both calls return a listener for the same path, and nothing is replaced between a last `lstat`
and its `unlink`: first because the second call probes while the first is bound but does not listen
yet; then, with a stale socket at the path, because the first call's new socket gets the inode number
of the stale one after the second call's probes. -/
theorem both_listen :
    (((system forced none none).runWhile NoReplacement (system forced none none).init
      (bindFresh false 5 ++ (finish false).take 2 ++ probeTwice true ++ replaceWith true 6 ++
        finish true ++ (finish false).drop 2)).map fun s => (s.calls false, s.calls true)) =
      some (.listening 5 5, .listening 6 6) ∧
    (((system forced (some ⟨5, .socket⟩) none).runWhile NoReplacement
      (system forced (some ⟨5, .socket⟩) none).init
      (probeTwice true ++ probeTwice false ++ replaceWith false 5 ++ finish false ++
        replaceWith true 6 ++ finish true)).map fun s => (s.calls false, s.calls true)) =
      some (.listening 5 5, .listening 6 6) := by
  constructor <;> decide +kernel

end Deadpool.Remote.BindUnix
