import YdxNet.Impl.Acceptor

/-!
# The descriptors of an acceptor

Whatever the rest of the program opens and closes between two system calls of `handleRead`,
the acceptor closes no descriptor but its own and keeps none that it does not know, and of
every connection it is known what became of it (`acceptor_ok`). As long as nobody takes the
descriptor that it frees for a moment, an acceptor that has got `idleFd_` at first gets it back
every time, and a connection that waits is taken out of the kernel in each call: it is handed
over while the process has a descriptor left, and dropped when it has none (`reserve_ok`).
-/

namespace Ydx

namespace Acceptor

variable {s s' : Acceptor} {limit : Nat} {owner : Fd → Option Owner} {fds fds' : List Fd} {fd : Fd}

/-! ## The table of descriptors -/

theorem free_some (h : s.free = some fd) : fd < s.limit ∧ s.owner fd = none := by
  have hmem := List.mem_of_find?_eq_some h
  have hfree := List.find?_some h
  rw [List.mem_range] at hmem
  exact ⟨hmem, by simpa using hfree⟩

/-- The acceptor has exactly the descriptors `fds`. -/
structure Owns (limit : Nat) (owner : Fd → Option Owner) (fds : List Fd) : Prop where
  mem : ∀ fd, owner fd = some .acceptor ↔ fd ∈ fds
  nodup : fds.Nodup
  below : ∀ fd ∈ fds, fd < limit

theorem Owns.close (h : Owns limit owner fds) (hp : fds.Perm (fd :: fds')) :
    owner fd = some .acceptor ∧ Owns limit (Function.update owner fd none) fds' := by
  have hnodup := hp.nodup_iff.mp h.nodup
  have hmem : ∀ x, x ∈ fds ↔ x = fd ∨ x ∈ fds' := fun x => by rw [hp.mem_iff, List.mem_cons]
  refine ⟨(h.mem fd).mpr ((hmem fd).mpr (.inl rfl)), fun x => ?_, (List.nodup_cons.mp hnodup).2,
    fun x hx => h.below x ((hmem x).mpr (.inr hx))⟩
  by_cases hx : x = fd
  · subst hx
    rw [Function.update_self]
    exact ⟨fun he => (Option.some_ne_none _ he.symm).elim, fun hx => absurd hx (List.nodup_cons.mp hnodup).1⟩
  · rw [Function.update_of_ne hx, h.mem, hmem]
    exact ⟨fun hx' => hx'.resolve_left hx, .inr⟩

theorem Owns.open (h : Owns limit owner fds) (hfree : owner fd = none) (hlt : fd < limit) :
    Owns limit (Function.update owner fd (some .acceptor)) (fd :: fds) := by
  have hnot : fd ∉ fds := fun hmem => by
    rw [← h.mem, hfree] at hmem
    cases hmem
  refine ⟨fun x => ?_, List.nodup_cons.mpr ⟨hnot, h.nodup⟩, fun x hx => ?_⟩
  · by_cases hx : x = fd
    · subst hx
      rw [Function.update_self]
      exact ⟨fun _ => List.mem_cons_self, fun _ => rfl⟩
    · rw [Function.update_of_ne hx, h.mem, List.mem_cons]
      exact ⟨.inr, fun hx' => hx'.resolve_left hx⟩
  · rcases List.mem_cons.mp hx with rfl | hx
    · exact hlt
    · exact h.below x hx

theorem Owns.perm (h : Owns limit owner fds) (hp : fds.Perm fds') : Owns limit owner fds' where
  mem fd := (h.mem fd).trans hp.mem_iff
  nodup := hp.nodup_iff.mp h.nodup
  below fd hfd := h.below fd (hp.mem_iff.mpr hfd)

/-- The descriptors of others change. -/
theorem Owns.other (h : Owns limit owner fds) (hfd : owner fd ≠ some .acceptor) {o : Option Owner}
    (ho : o ≠ some .acceptor) : Owns limit (Function.update owner fd o) fds := by
  refine ⟨fun x => ?_, h.nodup, h.below⟩
  by_cases hx : x = fd
  · subst hx
    rw [Function.update_self, ← h.mem]
    exact ⟨fun he => absurd he ho, fun he => absurd he hfd⟩
  · rw [Function.update_of_ne hx, h.mem]

/-! ## The invariant -/

/-- The descriptors that the acceptor has. -/
def owned (s : Acceptor) : List Fd :=
  match s.handleRead with
  | .idle | .closingIdle | .closing => s.acceptSocket_ :: s.idleFd_.toList
  | .accepting | .opening => [s.acceptSocket_]
  | .dropping connfd => connfd :: s.acceptSocket_ :: s.idleFd_.toList
  | .destroyed => []

/-- The connections that it is about to close. -/
def inHand (s : Acceptor) : Nat :=
  match s.handleRead with
  | .closing => s.idleFd_.toList.length
  | .dropping _ => 1
  | _ => 0

structure Inv (s : Acceptor) : Prop where
  owns : Owns s.limit s.owner s.owned
  own : s.foreign = false
  count : s.arrived = s.backlog + s.handed + s.closed + s.left + s.inHand

/-- What `accept` can do. -/
theorem accept_cases (s : Acceptor) (error : Option Nat) (o : Owner) :
    (∃ e, s.accept error o = (.error e, s)) ∨
      ∃ fd backlog, fd < s.limit ∧ s.owner fd = none ∧ s.backlog = backlog + 1 ∧
        s.accept error o = (.ok fd, { s with owner := Function.update s.owner fd (some o), backlog }) := by
  unfold accept
  split
  · exact .inl ⟨_, rfl⟩
  · exact .inl ⟨_, rfl⟩
  · exact .inl ⟨_, rfl⟩
  · rename_i fd backlog hfree hbacklog
    obtain ⟨hlt, hnone⟩ := free_some hfree
    exact .inr ⟨fd, backlog, hlt, hnone, hbacklog, rfl⟩

theorem openFd_cases (s : Acceptor) (o : Owner) :
    s.openFd o = (none, s) ∨ ∃ fd, fd < s.limit ∧ s.owner fd = none ∧
      s.openFd o = (some fd, { s with owner := Function.update s.owner fd (some o) }) := by
  unfold openFd
  split
  · exact .inl rfl
  · rename_i fd hfree
    obtain ⟨hlt, hnone⟩ := free_some hfree
    exact .inr ⟨fd, hlt, hnone, rfl⟩

/-- `handleRead()` moves on, without a system call. -/
theorem Inv.move (h : Inv s) {pc : HandleReadPc} (howned : { s with handleRead := pc }.owned = s.owned)
    (hhand : { s with handleRead := pc }.inHand = s.inHand) : Inv { s with handleRead := pc } where
  owns := by
    rw [howned]
    exact h.owns
  own := h.own
  count := by
    rw [hhand]
    exact h.count

theorem Inv.read (h : Inv s) (hpc : s.handleRead = .idle) (error : Option Nat) : Inv (s.read error) := by
  have howned : s.owned = s.acceptSocket_ :: s.idleFd_.toList := by
    rw [owned, hpc]
  have hcount := h.count
  have hhand : s.inHand = 0 := by
    rw [inHand, hpc]
  unfold Acceptor.read
  rcases s.accept_cases error (if s.newConnectionCallback_ then .program else .acceptor) with
    ⟨e, he⟩ | ⟨fd, backlog, hlt, hnone, hbacklog, he⟩
  · simp only [he]
    split
    · exact ⟨h.owns, h.own, h.count⟩
    · split
      · exact h.move (by rw [howned]; rfl) (by rw [hhand]; rfl)
      · exact h
  · simp only [he]
    cases hcb : s.newConnectionCallback_ with
    | true =>
      simp only [if_true]
      refine ⟨?_, h.own, ?_⟩
      · have hother := h.owns.other (show s.owner fd ≠ some .acceptor by rw [hnone]; nofun)
          (show some Owner.program ≠ some .acceptor by decide)
        rw [howned] at hother
        simpa only [owned, hpc] using hother
      · rw [hhand, hbacklog] at hcount
        simp only [inHand, hpc]
        omega
    | false =>
      simp only [Bool.false_eq_true, if_false]
      refine ⟨?_, h.own, ?_⟩
      · have hopen := h.owns.open hnone hlt
        rw [howned] at hopen
        exact hopen
      · rw [hhand, hbacklog] at hcount
        show s.arrived = backlog + s.handed + s.closed + s.left + 1
        omega

/-- `idleFd_` is closed, if there is one. -/
theorem Inv.closeIdle (h : Inv s) (howned : s.owned = s.acceptSocket_ :: s.idleFd_.toList) :
    Owns s.limit (s.closeFd s.idleFd_).owner [s.acceptSocket_] ∧ (s.closeFd s.idleFd_).foreign = false := by
  have howns := h.owns
  rw [howned] at howns
  cases hidle : s.idleFd_ with
  | none =>
    rw [hidle] at howns
    exact ⟨howns, h.own⟩
  | some idle =>
    rw [hidle] at howns
    obtain ⟨hself, hrest⟩ := howns.close (List.Perm.swap idle s.acceptSocket_ [])
    refine ⟨hrest, ?_⟩
    show (s.foreign || decide (s.owner idle ≠ some .acceptor)) = false
    rw [h.own, hself]
    rfl

theorem Inv.goOn (h : Inv s) (error : Option Nat) : Inv (s.goOn error) := by
  have howns := h.owns
  have hcount := h.count
  unfold Acceptor.goOn
  cases hpc : s.handleRead with
  | idle | destroyed => exact h
  | closingIdle =>
    have howned : s.owned = s.acceptSocket_ :: s.idleFd_.toList := by
      rw [owned, hpc]
    have hhand : s.inHand = 0 := by
      rw [inHand, hpc]
    obtain ⟨hrest, hown⟩ := h.closeIdle howned
    rw [hhand] at hcount
    cases hidle : s.idleFd_ with
    | none =>
      rw [hidle] at hrest hown
      exact ⟨hrest, hown, hcount⟩
    | some idle =>
      rw [hidle] at hrest hown
      exact ⟨hrest, hown, hcount⟩
  | accepting =>
    have howned : s.owned = [s.acceptSocket_] := by
      rw [owned, hpc]
    have hhand : s.inHand = 0 := by
      rw [inHand, hpc]
    rw [howned] at howns
    rw [hhand] at hcount
    rcases s.accept_cases error .acceptor with ⟨e, he⟩ | ⟨fd, backlog, hlt, hnone, hbacklog, he⟩
    · simp only [he]
      exact ⟨howns, h.own, hcount⟩
    · simp only [he]
      refine ⟨(howns.open hnone hlt).perm (List.Perm.swap s.acceptSocket_ fd []), h.own, ?_⟩
      rw [hbacklog] at hcount
      show s.arrived = backlog + s.handed + s.closed + s.left + 1
      omega
  | closing =>
    have howned : s.owned = s.acceptSocket_ :: s.idleFd_.toList := by
      rw [owned, hpc]
    have hhand : s.inHand = s.idleFd_.toList.length := by
      rw [inHand, hpc]
    obtain ⟨hrest, hown⟩ := h.closeIdle howned
    rw [hhand] at hcount
    cases hidle : s.idleFd_ with
    | none =>
      rw [hidle] at hrest hown hcount
      exact ⟨hrest, hown, hcount⟩
    | some idle =>
      rw [hidle] at hrest hown hcount
      refine ⟨hrest, hown, ?_⟩
      show s.arrived = s.backlog + s.handed + (s.closed + 1) + s.left + 0
      rw [Option.toList_some, List.length_singleton] at hcount
      omega
  | opening =>
    have howned : s.owned = [s.acceptSocket_] := by
      rw [owned, hpc]
    have hhand : s.inHand = 0 := by
      rw [inHand, hpc]
    rw [howned] at howns
    rw [hhand] at hcount
    cases error with
    | some e => exact ⟨howns, h.own, hcount⟩
    | none =>
      rcases s.openFd_cases .acceptor with ho | ⟨fd, hlt, hnone, ho⟩
      · simp only [ho]
        exact ⟨howns, h.own, hcount⟩
      · simp only [ho]
        exact ⟨(howns.open hnone hlt).perm (List.Perm.swap s.acceptSocket_ fd []), h.own, hcount⟩
  | dropping connfd =>
    have howned : s.owned = connfd :: s.acceptSocket_ :: s.idleFd_.toList := by
      rw [owned, hpc]
    have hhand : s.inHand = 1 := by
      rw [inHand, hpc]
    rw [howned] at howns
    obtain ⟨hself, hrest⟩ := howns.close (List.Perm.refl _)
    refine ⟨hrest, ?_, ?_⟩
    · show (s.foreign || decide (s.owner connfd ≠ some .acceptor)) = false
      rw [h.own, hself]
      rfl
    · rw [hhand] at hcount
      show s.arrived = s.backlog + s.handed + (s.closed + 1) + s.left + 0
      omega

theorem Inv.destroy (h : Inv s) (hpc : s.handleRead = .idle) : Inv s.destroy := by
  have howned : s.owned = s.acceptSocket_ :: s.idleFd_.toList := by
    rw [owned, hpc]
  have hcount := h.count
  have hhand : s.inHand = 0 := by
    rw [inHand, hpc]
  rw [hhand] at hcount
  obtain ⟨hrest, hown⟩ := h.closeIdle howned
  obtain ⟨hself, hnone⟩ := hrest.close (List.Perm.refl _)
  unfold Acceptor.destroy
  cases hidle : s.idleFd_ with
  | none =>
    rw [hidle] at hnone hself
    refine ⟨hnone, ?_, hcount⟩
    show (s.foreign || decide (s.owner s.acceptSocket_ ≠ some .acceptor)) = false
    rw [h.own, show s.owner s.acceptSocket_ = some .acceptor from hself]
    rfl
  | some idle =>
    rw [hidle] at hnone hself hown
    refine ⟨hnone, ?_, hcount⟩
    show ((s.closeFd (some idle)).foreign || decide ((s.closeFd (some idle)).owner s.acceptSocket_ ≠ some .acceptor)) = false
    rw [hown, hself]
    rfl

theorem Inv.step (h : Inv s) (a : Action) : Inv (s.step a) := by
  unfold Acceptor.step
  split
  · exact h
  · cases a with
    | read error =>
      dsimp only
      split
      · rename_i hpc
        exact h.read hpc error
      · exact h
    | goOn error => exact h.goOn error
    | destroy =>
      dsimp only
      split
      · rename_i hpc
        exact h.destroy hpc
      · exact h
    | openFd =>
      rcases s.openFd_cases .program with ho | ⟨fd, -, hnone, ho⟩
      · simp only [ho]
        exact h
      · simp only [ho]
        exact ⟨h.owns.other (by rw [hnone]; nofun) (by decide), h.own, h.count⟩
    | closeFd fd =>
      dsimp only
      split
      · rename_i hfd
        exact ⟨h.owns.other (by rw [hfd]; decide) nofun, h.own, h.count⟩
      · exact h
    | arrive =>
      refine ⟨h.owns, h.own, ?_⟩
      have hcount := h.count
      show s.arrived + 1 = s.backlog + 1 + s.handed + s.closed + s.left + s.inHand
      omega
    | leave =>
      dsimp only
      split
      · refine ⟨h.owns, h.own, ?_⟩
        have hcount := h.count
        show s.arrived = s.backlog - 1 + s.handed + s.closed + (s.left + 1) + s.inHand
        omega
      · exact h

theorem new_inv {taken : Fd → Bool} {callback : Bool} (ha : new limit taken callback = some s) :
    Inv s ∧ s.handleRead = .idle := by
  simp only [new] at ha
  split at ha
  · cases ha
  · rename_i fd s₁ ho
    rw [Option.some.injEq] at ha
    subst ha
    unfold openFd at ho
    split at ho
    · cases ho
    · rename_i fd' hfree
      obtain ⟨hlt, hnone⟩ := free_some hfree
      have hnew : Owns limit (fun fd => if taken fd then some Owner.program else none) [] := by
        refine ⟨fun x => ?_, List.nodup_nil, fun x hx => absurd hx List.not_mem_nil⟩
        split <;> simp
      have howns := hnew.open hnone hlt
      simp only [Prod.mk.injEq, Option.some.injEq] at ho
      obtain ⟨rfl, rfl⟩ := ho
      refine ⟨?_, ?_⟩
      · rcases openFd_cases _ .acceptor with ho | ⟨idle, hlt', hnone', ho⟩
        · rw [ho]
          exact ⟨howns, rfl, rfl⟩
        · rw [ho]
          exact ⟨(howns.open hnone' hlt').perm (List.Perm.swap _ _ []), rfl, rfl⟩
      · rcases openFd_cases _ .acceptor with ho | ⟨idle, hlt', hnone', ho⟩
        · rw [ho]
        · rw [ho]

/-- In every run: the acceptor has closed no descriptor of others, it has those it knows of and no
others, and each connection that came still waits, was handed over or closed, is about to be closed,
or went away. -/
theorem acceptor_ok {taken : Fd → Bool} {callback : Bool} {a : Acceptor} (ha : new limit taken callback = some a)
    (actions : List Action) :
    let s := machine.final a actions
    s.foreign = false ∧ (∀ fd, s.owner fd = some .acceptor ↔ fd ∈ s.owned) ∧ s.owned.Nodup ∧
      s.arrived = s.backlog + s.handed + s.closed + s.left + s.inHand := by
  intro s
  have h : Inv s := Machine.always (I := Inv) (fun _ a h => h.step a) actions _ (new_inv ha).1
  exact ⟨h.own, h.owns.mem, h.owns.nodup, h.count⟩

/-- The program has taken the last descriptors, and a connection comes. The program takes the
descriptor that the acceptor frees: `idleFd_` is lost. -/
def robbed : List Action :=
  [.openFd, .openFd, .arrive, .read none, .goOn none, .openFd, .goOn none, .goOn none, .goOn none]

theorem acceptor_ok_robbed :
    ∃ a, new 4 (fun _ => false) true = some a ∧ (machine.final a robbed).idleFd_ = none ∧
      (machine.final a robbed).foreign = false := by
  have ha : new 4 (fun _ => false) true = some _ := rfl
  exact ⟨_, ha, by decide, (acceptor_ok ha robbed).1⟩

/-! ## The descriptor kept in reserve -/

/-- There is a free descriptor. -/
def HasFree (s : Acceptor) : Prop := ∃ fd < s.limit, s.owner fd = none

theorem HasFree.isSome (h : s.HasFree) : ∃ fd, s.free = some fd := by
  obtain ⟨fd, hlt, hnone⟩ := h
  exact Option.isSome_iff_exists.mp (List.find?_isSome.mpr ⟨fd, List.mem_range.mpr hlt, by simp [hnone]⟩)

/-- Nobody takes the descriptor that the acceptor frees for a moment, and `open` fails only when
there is none. -/
def Alone (s : Acceptor) : Action → Prop
  | .openFd => s.handleRead ∉ [HandleReadPc.accepting, .closing, .opening]
  | .goOn error => s.handleRead = .opening → error = none
  | _ => True

/-- `idleFd_` is there, or a free descriptor in its place. -/
def Reserve (s : Acceptor) : Prop :=
  match s.handleRead with
  | .idle | .closingIdle | .dropping _ => s.idleFd_ ≠ none
  | .accepting | .opening => s.HasFree
  | .closing => s.idleFd_ ≠ none ∨ s.HasFree
  | .destroyed => True

/-- The rest of the program does something. -/
theorem Reserve.mono (hr : s.Reserve) (hpc : s'.handleRead = s.handleRead) (hidle : s'.idleFd_ = s.idleFd_)
    (hf : s.handleRead ∈ [HandleReadPc.accepting, .closing, .opening] → s.HasFree → s'.HasFree) : s'.Reserve := by
  unfold Reserve at hr ⊢
  rw [hpc, hidle]
  cases hs : s.handleRead with
  | idle | closingIdle | dropping connfd | destroyed =>
    simp only [hs] at hr
    exact hr
  | accepting | opening =>
    simp only [hs] at hr
    exact hf (by simp [hs]) hr
  | closing =>
    simp only [hs] at hr
    exact hr.imp_right (hf (by simp [hs]))

/-- A descriptor that is closed is free. -/
theorem hasFree_closeFd (hlt : fd < s.limit) : (s.closeFd (some fd)).HasFree :=
  ⟨fd, hlt, Function.update_self ..⟩

theorem Reserve.read (hr : s.Reserve) (hpc : s.handleRead = .idle) (error : Option Nat) : (s.read error).Reserve := by
  have hidle : s.idleFd_ ≠ none := by
    simpa only [Reserve, hpc] using hr
  unfold Acceptor.read
  rcases s.accept_cases error (if s.newConnectionCallback_ then .program else .acceptor) with
    ⟨e, he⟩ | ⟨fd, backlog, -, -, -, he⟩
  · simp only [he]
    split
    · simpa only [Reserve, hpc] using hidle
    · split
      · exact hidle
      · exact hr
  · simp only [he]
    split
    · simpa only [Reserve, hpc] using hidle
    · exact hidle

theorem Reserve.goOn (hr : s.Reserve) (h : Inv s) {error : Option Nat} (ha : Alone s (.goOn error)) :
    (s.goOn error).Reserve := by
  have hbelow := h.owns.below
  have hsame := hr
  unfold Reserve at hr
  unfold Acceptor.goOn
  cases hpc : s.handleRead with
  | idle | destroyed => exact hsame
  | closingIdle =>
    simp only [hpc] at hr
    obtain ⟨idle, hidle⟩ := Option.ne_none_iff_exists'.mp hr
    rw [owned, hpc, hidle] at hbelow
    rw [hidle]
    exact hasFree_closeFd (hbelow idle (by simp))
  | accepting =>
    simp only [hpc] at hr
    rcases s.accept_cases error .acceptor with ⟨e, he⟩ | ⟨fd, backlog, -, -, -, he⟩
    · simp only [he]
      exact .inr hr
    · simp only [he]
      exact .inl nofun
  | closing =>
    simp only [hpc] at hr
    rw [owned, hpc] at hbelow
    cases hidle : s.idleFd_ with
    | none => exact hr.resolve_left (by simp [hidle])
    | some idle =>
      rw [hidle] at hbelow
      exact hasFree_closeFd (hbelow idle (by simp))
  | opening =>
    simp only [hpc] at hr
    obtain ⟨fd, hfree⟩ := HasFree.isSome hr
    rw [ha hpc]
    simp [Reserve, openFd, hfree]
  | dropping connfd =>
    simp only [hpc] at hr
    exact hr

theorem Reserve.step (hr : s.Reserve) (h : Inv s) {a : Action} (ha : Alone s a) : (s.step a).Reserve := by
  unfold Acceptor.step
  split
  · exact hr
  · cases a with
    | read error =>
      dsimp only
      split
      · rename_i hpc
        exact hr.read hpc error
      · exact hr
    | goOn error => exact hr.goOn h ha
    | destroy =>
      dsimp only
      split
      · exact trivial
      · exact hr
    | openFd =>
      rcases s.openFd_cases .program with ho | ⟨fd, -, -, ho⟩
      · simp only [ho]
        exact hr
      · simp only [ho]
        exact hr.mono rfl rfl fun hpc => absurd hpc ha
    | closeFd fd =>
      dsimp only
      split
      · refine hr.mono rfl rfl fun _ ⟨x, hx, hnone⟩ => ⟨x, hx, ?_⟩
        show Function.update s.owner fd none x = none
        by_cases hxf : x = fd
        · rw [hxf, Function.update_self]
        · rw [Function.update_of_ne hxf, hnone]
      · exact hr
    | arrive => exact hr
    | leave =>
      dsimp only
      split
      · exact hr
      · exact hr

/-! ## A call of `handleRead` -/

theorem accept_free (hfree : s.HasFree) (hb : 0 < s.backlog) (o : Owner) :
    ∃ fd, s.accept none o = (.ok fd, { s with owner := Function.update s.owner fd (some o), backlog := s.backlog - 1 }) := by
  obtain ⟨fd, hfd⟩ := hfree.isSome
  obtain ⟨backlog, hbacklog⟩ := Nat.exists_eq_succ_of_ne_zero (Nat.ne_of_gt hb)
  refine ⟨fd, ?_⟩
  simp only [accept, hfd, hbacklog, Nat.succ_eq_add_one, Nat.add_sub_cancel]

theorem final_read (h : s.aborted = false) (hpc : s.handleRead = .idle) (actions : List Action) :
    machine.final s (.read none :: actions) = machine.final (s.read none) actions := by
  simp [Machine.final, machine, Acceptor.step, h, hpc]

theorem final_goOn (h : s.aborted = false) (actions : List Action) :
    machine.final s (.goOn none :: actions) = machine.final (s.goOn none) actions := by
  simp [Machine.final, machine, Acceptor.step, h]

/-- A call of `handleRead` has taken a connection: with a descriptor left it goes to
`newConnectionCallback_`, and without one, or without a callback, it is closed. -/
structure Took (s t : Acceptor) : Prop where
  idle : t.handleRead = .idle
  reserve : t.idleFd_ ≠ none
  backlog : t.backlog + 1 = s.backlog
  handed : s.HasFree → s.newConnectionCallback_ = true → t.handed = s.handed + 1 ∧ t.closed = s.closed
  dropped : ¬ (s.HasFree ∧ s.newConnectionCallback_ = true) → t.handed = s.handed ∧ t.closed = s.closed + 1

/-- Outside, nothing goes on. -/
theorem final_idle (h : s.aborted = false) (hpc : s.handleRead = .idle) :
    ∀ n, machine.final s (List.replicate n (.goOn none)) = s
  | 0 => rfl
  | n + 1 => by
    have hs : s.goOn none = s := by
      rw [Acceptor.goOn, hpc]
    rw [List.replicate_succ, final_goOn h, hs, final_idle h hpc n]

/-- With a free descriptor, the connection is handed over, or closed at once. -/
theorem took_free (h : s.aborted = false) (hpc : s.handleRead = .idle) (hr : s.idleFd_ ≠ none) (hb : 0 < s.backlog)
    (hfree : s.HasFree) : Took s (machine.final s (.read none :: List.replicate 4 (.goOn none))) := by
  obtain ⟨fd, hfd⟩ := accept_free hfree hb (if s.newConnectionCallback_ then .program else .acceptor)
  have hbacklog : s.backlog - 1 + 1 = s.backlog := Nat.sub_add_cancel hb
  cases hcb : s.newConnectionCallback_ with
  | true =>
    let t : Acceptor :=
      { s with owner := Function.update s.owner fd (some .program), backlog := s.backlog - 1, handed := s.handed + 1 }
    have hread : s.read none = t := by
      simp only [hcb, if_true] at hfd
      simp only [Acceptor.read, hcb, if_true, hfd]
      rw [← hcb]
    rw [final_read h hpc, hread, final_idle (s := t) h hpc]
    exact ⟨hpc, hr, hbacklog, fun _ _ => ⟨rfl, rfl⟩, fun hnot => absurd ⟨hfree, hcb⟩ hnot⟩
  | false =>
    let t : Acceptor :=
      { s with owner := Function.update s.owner fd (some .acceptor), backlog := s.backlog - 1, handleRead := .dropping fd }
    have hread : s.read none = t := by
      simp only [hcb, Bool.false_eq_true, if_false] at hfd
      simp only [Acceptor.read, hcb, Bool.false_eq_true, if_false, hfd]
      rw [← hcb]
    rw [final_read h hpc, hread, List.replicate_succ, final_goOn (s := t) h, final_idle (s := t.goOn none) h rfl]
    exact ⟨rfl, hr, hbacklog, fun _ hyes => absurd (hcb.symm.trans hyes) Bool.false_ne_true, fun _ => ⟨rfl, rfl⟩⟩

/-- Without one, `idleFd_` makes room for it, and it is closed. -/
theorem took_full (hi : Inv s) (h : s.aborted = false) (hpc : s.handleRead = .idle) (hr : s.idleFd_ ≠ none)
    (hb : 0 < s.backlog) (hfull : ¬ s.HasFree) :
    Took s (machine.final s (.read none :: List.replicate 4 (.goOn none))) := by
  have hbelow := hi.owns.below
  obtain ⟨idle, hidle⟩ := Option.ne_none_iff_exists'.mp hr
  rw [owned, hpc, hidle] at hbelow
  have hread : s.read none = { s with handleRead := .closingIdle } := by
    have hnone : s.free = none := by
      rw [Option.eq_none_iff_forall_not_mem]
      exact fun fd hfd => hfull ⟨fd, free_some hfd⟩
    have herror : ∀ o, s.accept none o = (.error EMFILE, s) := fun o => by simp only [accept, hnone]
    rw [Acceptor.read, herror]
    rfl
  -- `idleFd_` is closed,
  let s₁ : Acceptor := { s.closeFd s.idleFd_ with handleRead := .accepting }
  have h₁ : (s.read none).goOn none = s₁ := by
    rw [hread]
    rfl
  have hfree₁ : s₁.HasFree := by
    have hclosed := hasFree_closeFd (hbelow idle (by simp))
    rw [← hidle] at hclosed
    exact hclosed
  -- so that the connection is accepted,
  obtain ⟨fd, hfd⟩ := accept_free hfree₁ (show 0 < s₁.backlog from hb) .acceptor
  let s₂ : Acceptor :=
    { s₁ with
      owner := Function.update s₁.owner fd (some .acceptor)
      backlog := s₁.backlog - 1
      idleFd_ := some fd
      handleRead := .closing }
  have h₂ : s₁.goOn none = s₂ := by
    rw [Acceptor.goOn]
    dsimp only [s₁]
    rw [hfd]
  have hlt : fd < s.limit := by
    obtain ⟨e, he⟩ | ⟨fd', _, hlt, -, -, he⟩ := s₁.accept_cases none .acceptor
    · rw [hfd] at he
      cases he
    · rw [hfd] at he
      cases he
      exact hlt
  -- and closed.
  let s₃ : Acceptor := { s₂.closeFd (some fd) with closed := s₂.closed + 1, handleRead := .opening }
  have h₃ : s₂.goOn none = s₃ := rfl
  have hfree₃ : s₃.HasFree := hasFree_closeFd (s := s₂) hlt
  obtain ⟨idle', hidle'⟩ := hfree₃.isSome
  have h₄ : s₃.goOn none = { (s₃.openFd .acceptor).2 with idleFd_ := (s₃.openFd .acceptor).1, handleRead := .idle } := rfl
  have hopen : s₃.openFd .acceptor =
      (some idle', { s₃ with owner := Function.update s₃.owner idle' (some .acceptor) }) := by
    rw [openFd, hidle']
  rw [final_read h hpc, List.replicate_succ, final_goOn (by rw [hread]; exact h), h₁, List.replicate_succ,
    final_goOn (s := s₁) h, h₂, List.replicate_succ, final_goOn (s := s₂) h, h₃, List.replicate_succ,
    final_goOn (s := s₃) h, h₄, hopen]
  exact ⟨rfl, Option.some_ne_none idle', Nat.sub_add_cancel hb, fun hfree => absurd hfree hfull, fun _ => ⟨rfl, rfl⟩⟩

/-- In every run of an acceptor whose constructor has got `idleFd_`, in which nobody takes the
descriptor that the acceptor frees for a moment and `open` fails only for want of one: outside
`handleRead` it has `idleFd_`. If a connection waits then, the next call, which nobody
interrupts and whose system calls fail only for want of a descriptor, takes one: it hands it
over if the process has a descriptor left, closes it if not, and leaves `idleFd_` there. -/
theorem reserve_ok {taken : Fd → Bool} {callback : Bool} {a : Acceptor} (ha : new limit taken callback = some a)
    (hidle : a.idleFd_ ≠ none) (actions : List Action) (halone : machine.Along Alone a actions) :
    let s := machine.final a actions
    s.handleRead = .idle → s.idleFd_ ≠ none ∧ (s.aborted = false → 0 < s.backlog →
      Took s (machine.final s (.read none :: List.replicate 4 (.goOn none)))) := by
  intro s hpc
  obtain ⟨hinv, hread⟩ := new_inv ha
  have hstart : a.Reserve := by
    simpa only [Reserve, hread] using hidle
  obtain ⟨h, hr⟩ : Inv s ∧ s.Reserve := Machine.invariant (I := fun s => Inv s ∧ s.Reserve)
    (fun _ a h ha => ⟨h.1.step a, h.2.step h.1 ha⟩) actions _ ⟨hinv, hstart⟩ halone
  have hne : s.idleFd_ ≠ none := by
    simpa only [Reserve, hpc] using hr
  refine ⟨hne, fun hrun hb => ?_⟩
  by_cases hfree : s.HasFree
  · exact took_free hrun hpc hne hb hfree
  · exact took_full h hrun hpc hne hb hfree

instance (s : Acceptor) : ∀ a, Decidable (Alone s a)
  | .openFd => inferInstanceAs (Decidable (_ ∉ _))
  | .goOn _ => inferInstanceAs (Decidable (_ → _))
  | .read _ | .destroy | .closeFd _ | .arrive | .leave => inferInstanceAs (Decidable True)

/-- The program has taken all descriptors but those of the acceptor: the connection is dropped. -/
theorem reserve_ok_full :
    ∃ a, new 4 (fun _ => false) true = some a ∧
      let s := machine.final a [.openFd, .openFd, .arrive]
      let t := machine.final s (.read none :: List.replicate 4 (.goOn none))
      Took s t ∧ t.handed = 0 ∧ t.closed = 1 := by
  have ha : new 4 (fun _ => false) true = some _ := rfl
  have hall := reserve_ok ha (by decide) [.openFd, .openFd, .arrive] (by decide)
  exact ⟨_, ha, (hall (by decide)).2 (by decide) (by decide), by decide, by decide⟩

end Acceptor

end Ydx
