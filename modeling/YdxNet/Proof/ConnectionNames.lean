import YdxNet.Impl.InetAddress
import YdxNet.Proof.TcpServer

/-!
# The names of a server's connections

A connection is named after its server, the address listened at and its number,
of which `buf[32]` keeps as many digits as the address leaves room for
(`connName_eq_iff`). The numbers up to `n` can be told apart by their first `k`
digits exactly if none of them has more than `k` (`kept_injective_iff`).
-/

namespace Ydx

open InetAddress TcpConnection

/-! ## Numbers in decimal -/

/-- The first `k` decimal digits of a number. -/
def kept (k n : Nat) : List Char := (Nat.toDigits 10 n).take k

theorem toDigits_injective {a b : Nat} (h : Nat.toDigits 10 a = Nat.toDigits 10 b) : a = b := by
  have hn := congrArg (fun ds => Nat.ofDigitChars 10 ds 0) h
  simpa using hn

theorem kept_of_lt {k n : Nat} (hk : 0 < k) (h : n < 10 ^ k) : kept k n = Nat.toDigits 10 n :=
  List.take_of_length_le ((Nat.length_toDigits_le_iff (by decide) hk).mpr h)

/-- The number with one more digit begins like the number itself. -/
theorem kept_mul_ten {k n : Nat} (hn : 0 < n) (hk : (Nat.toDigits 10 n).length = k) : kept k (10 * n) = kept k n := by
  have hd : Nat.toDigits 10 (10 * n) = Nat.toDigits 10 n ++ [Nat.digitChar 0] := by
    rw [Nat.toDigits_of_base_le (by decide) (by omega), Nat.mul_div_cancel_left n (by decide), Nat.mul_mod_right]
  rw [kept, kept, hd, List.take_append_of_le_length (by omega)]

theorem length_toDigits_pow {k : Nat} (hk : 0 < k) : (Nat.toDigits 10 (10 ^ (k - 1))).length = k := by
  have hle : (Nat.toDigits 10 (10 ^ (k - 1))).length ≤ k :=
    (Nat.length_toDigits_le_iff (by decide) hk).mpr (Nat.pow_lt_pow_right (by decide) (by omega))
  by_cases h1 : k = 1
  · subst h1
    rfl
  · have hlt : ¬ (Nat.toDigits 10 (10 ^ (k - 1))).length ≤ k - 1 := by
      rw [Nat.length_toDigits_le_iff (by decide) (by omega)]
      exact Nat.lt_irrefl _
    omega

/-- The numbers from 1 to `n` differ in their first `k` digits exactly if none of
them has more. -/
theorem kept_injective_iff {k n : Nat} (hk : 0 < k) :
    (∀ a b, a < n → b < n → kept k (a + 1) = kept k (b + 1) → a = b) ↔ n < 10 ^ k := by
  constructor
  · intro h
    by_contra hn
    have hp : 0 < 10 ^ (k - 1) := Nat.pow_pos (by decide)
    have hs : 10 ^ k = 10 * 10 ^ (k - 1) := by
      rw [← Nat.pow_succ', Nat.succ_eq_add_one, Nat.sub_add_cancel hk]
    have he := h (10 * 10 ^ (k - 1) - 1) (10 ^ (k - 1) - 1) (by omega) (by omega) (by
      rw [Nat.sub_add_cancel (by omega), Nat.sub_add_cancel hp]
      exact kept_mul_ten hp (length_toDigits_pow hk))
    omega
  · intro hn a b ha hb he
    rw [kept_of_lt hk (by omega), kept_of_lt hk (by omega)] at he
    exact Nat.succ.inj (toDigits_injective he)

/-! ## Texts -/

theorem length_toString_le {n k : Nat} (hk : 0 < k) (h : n < 10 ^ k) : (toString n).length ≤ k :=
  (Nat.length_repr_le_iff hk).mpr h

/-- An address takes at most 21 characters. -/
theorem length_toIpPort (addr : InetAddress) : addr.toIpPort.length ≤ 21 := by
  obtain ⟨⟨b₀, b₁, b₂, b₃⟩, port⟩ := addr
  have h8 : ∀ b : UInt8, (toString b.toNat).length ≤ 3 := fun b =>
    length_toString_le (by decide) (Nat.lt_of_lt_of_le b.toNat_lt (by decide))
  have hp : (toString port.toNat).length ≤ 5 :=
    length_toString_le (by decide) (Nat.lt_of_lt_of_le port.toNat_lt (by decide))
  have h₀ := h8 b₀; have h₁ := h8 b₁; have h₂ := h8 b₂; have h₃ := h8 b₃
  have hdot : ".".length = 1 := rfl
  have hcolon : ":".length = 1 := rfl
  simp only [toIpPort, toIpPortIn, snprintf, inetNtop, String.length_append, String.length_ofList, List.length_take,
    String.length_toList]
  omega

namespace TcpServer

/-- The name of the connection with the number `id`. -/
def connNameOf (name hostport : String) (id : Int32) : String :=
  name ++ String.ofList ((":" ++ hostport ++ "#" ++ toString id.toInt).toList.take 31)

/-- Two numbers give the same name when the digits that are kept are the same. -/
theorem connNameOf_eq_iff {name hostport : String} (hl : hostport.length ≤ 21) {a b : Nat} (ha : a < 2 ^ 31)
    (hb : b < 2 ^ 31) : connNameOf name hostport (Int32.ofNat a) = connNameOf name hostport (Int32.ofNat b) ↔
      kept (29 - hostport.length) a = kept (29 - hostport.length) b := by
  have hname : ∀ n, n < 2 ^ 31 → (connNameOf name hostport (Int32.ofNat n)).toList =
      name.toList ++ ((":" ++ hostport ++ "#").toList ++ kept (29 - hostport.length) n) := by
    intro n hn
    have hlen : (":" ++ hostport ++ "#").toList.length = hostport.length + 2 := by
      simp only [String.length_toList, String.length_append]
      have hcolon : ":".length = 1 := rfl
      have hhash : "#".length = 1 := rfl
      omega
    have hs : (toString (Int32.ofNat n).toInt).toList = Nat.toDigits 10 n := by
      rw [Int32.toInt_ofNat_of_lt hn]
      exact Nat.toList_repr
    rw [connNameOf, String.toList_append, String.toList_ofList, String.toList_append, hs, List.take_append,
      List.take_of_length_le (by omega), hlen, kept, show 31 - (hostport.length + 2) = 29 - hostport.length by omega]
  rw [← String.toList_inj, hname a ha, hname b hb, List.append_cancel_left_eq, List.append_cancel_left_eq]

/-! ## Runs -/

/-- The server and its connections keep their names, and entries are only taken
out of `connections_`. -/
structure Keeping (s s' : TcpServer) : Prop where
  hostport : s'.hostport_ = s.hostport_
  name : s'.name_ = s.name_
  nextId : s'.nextConnId_ = s.nextConnId_
  names : s'.conns.map ServerConn.name_ = s.conns.map ServerConn.name_
  entries : ∀ n c, s'.connections_ n = some c → s.connections_ n = some c

variable {s s' s₁ s₂ s₃ : TcpServer} {c : Nat} {C : ServerConn}

theorem Keeping.refl (s : TcpServer) : Keeping s s := ⟨rfl, rfl, rfl, rfl, fun _ _ h => h⟩

theorem Keeping.trans (h₁ : Keeping s₁ s₂) (h₂ : Keeping s₂ s₃) : Keeping s₁ s₃ where
  hostport := h₂.hostport.trans h₁.hostport
  name := h₂.name.trans h₁.name
  nextId := h₂.nextId.trans h₁.nextId
  names := h₂.names.trans h₁.names
  entries n c h := h₁.entries n c (h₂.entries n c h)

theorem keeping_setLoop (s : TcpServer) (l : Nat) (e : EventLoop Functor) : Keeping s (s.setLoop l e) :=
  ⟨rfl, rfl, rfl, rfl, fun _ _ h => h⟩

theorem map_name_set {C' : ServerConn} (hc : s.conns[c]? = some C) (hn : C'.name_ = C.name_) :
    (s.conns.set c C').map ServerConn.name_ = s.conns.map ServerConn.name_ := by
  have hself : s.conns.set c C = s.conns := by
    obtain ⟨hlt, rfl⟩ := List.getElem?_eq_some_iff.mp hc
    exact List.set_getElem_self hlt
  rw [List.map_set, hn, ← List.map_set, hself]

theorem keeping_frame : Frame Keeping where
  refl := Keeping.refl
  trans := Keeping.trans
  queueInLoop s _ l _ := keeping_setLoop s l _
  set _ hc _ hn _ he := ⟨rfl, rfl, rfl, map_name_set hc hn, he⟩
  store hc _ hn _ := ⟨rfl, rfl, rfl, map_name_set hc hn, fun _ _ h => h⟩

/-- The base loop comes to the acceptor's channel, and `accept` gives `fd`. -/
def Accepts (s : TcpServer) (a : Action) (fd : Fd) : Prop :=
  a = .accept (some fd) ∧ ∃ active, (s.loops 0).phase = .handling [] (.acceptChannel_ :: active)

/-- A step keeps what all parts of the server keep, or it adds a connection. -/
theorem Frame.step {R : TcpServer → TcpServer → Prop} (h : Frame R) (hset : ∀ s l e, R s (s.setLoop l e)) (s : TcpServer)
    (a : Action) : R s (s.step a) ∨ ∃ fd s₁, s.Accepts a fd ∧ R s s₁ ∧ s₁.conns = s.conns ∧ R (s₁.added fd) (s.step a) := by
  cases a with
  | epollWait l ready => exact .inl (hset s l _)
  | nextChannel l => exact .inl (hset s l _)
  | accept connfd =>
    simp only [TcpServer.step]
    split
    · rename_i active hph
      have h₁ := hset s 0 { s.loops 0 with phase := .handling [] active }
      cases connfd with
      | none => exact .inl h₁
      | some fd => exact .inr ⟨fd, _, ⟨rfl, active, hph⟩, h₁, rfl, h.newConnection _ fd⟩
    · exact .inl (h.refl s)
  | callback l readv write =>
    simp only [TcpServer.step]
    split
    · exact .inl (h.trans (hset s l _) (h.call _ l _ [] (owns_handler readv write _)))
    · exact .inl (h.refl s)
  | doPendingFunctors l => exact .inl (hset s l _)
  | functor l =>
    simp only [TcpServer.step]
    split
    · exact .inl (h.trans (hset s l _) (h.exec _ l _))
    · exact .inl (hset s l _)
    · exact .inl (h.refl s)
  | shutdown caller c => exact .inl (h.shutdown s caller c)
  | send caller c data len result => exact .inl (h.call s caller c [] fun p conn => owns_send p conn data len result)

/-- A step keeps the names, or adds a connection. -/
theorem keeping_step (s : TcpServer) (a : Action) :
    Keeping s (s.step a) ∨
      ∃ fd s₁, s.Accepts a fd ∧ Keeping s s₁ ∧ s₁.conns = s.conns ∧ Keeping (s₁.added fd) (s.step a) :=
  keeping_frame.step keeping_setLoop s a

/-- Connections have the names of their numbers, and the entries of
`connections_` are under the names of their connections. -/
structure Named (name hostport : String) (s : TcpServer) : Prop where
  hostport_eq : s.hostport_ = hostport
  name_eq : s.name_ = name
  nextId : s.nextConnId_ = Int32.ofNat (s.conns.length + 1)
  names : ∀ c C, s.conns[c]? = some C → C.name_ = connNameOf name hostport (Int32.ofNat (c + 1))
  entries : ∀ n c, s.connections_ n = some c → ∃ C, s.conns[c]? = some C ∧ C.name_ = n

variable {name hostport : String}

theorem Keeping.length (h : Keeping s s') : s'.conns.length = s.conns.length := by
  have := congrArg List.length h.names
  simpa using this

theorem Keeping.getElem? (h : Keeping s s') (hc : s'.conns[c]? = some C) :
    ∃ D, s.conns[c]? = some D ∧ D.name_ = C.name_ := by
  have hm := congrArg (fun names => names[c]?) h.names
  simp only [List.getElem?_map, hc, Option.map_some] at hm
  exact Option.map_eq_some_iff.mp hm.symm

theorem Named.keep (h : Named name hostport s) (hk : Keeping s s') : Named name hostport s' where
  hostport_eq := hk.hostport.trans h.hostport_eq
  name_eq := hk.name.trans h.name_eq
  nextId := by rw [hk.nextId, hk.length, h.nextId]
  names c C hc := by
    obtain ⟨D, hD, hn⟩ := hk.getElem? hc
    rw [← hn]
    exact h.names c D hD
  entries n c hc := by
    obtain ⟨D, hD, hn⟩ := h.entries n c (hk.entries n c hc)
    have hlt : c < s'.conns.length := by
      rw [hk.length]
      exact (List.getElem?_eq_some_iff.mp hD).1
    obtain ⟨D', hD', hn'⟩ := hk.getElem? (List.getElem?_eq_getElem hlt)
    rw [hD, Option.some.injEq] at hD'
    subst hD'
    exact ⟨_, List.getElem?_eq_getElem hlt, hn'.symm.trans hn⟩

/-- The name that the next connection gets. -/
theorem Named.connName (h : Named name hostport s) :
    s.connName = connNameOf name hostport (Int32.ofNat (s.conns.length + 1)) := by
  show connNameOf s.name_ s.hostport_ s.nextConnId_ = _
  rw [h.name_eq, h.hostport_eq, h.nextId]

theorem Named.added (h : Named name hostport s) (fd : Fd) : Named name hostport (s.added fd) where
  hostport_eq := h.hostport_eq
  name_eq := h.name_eq
  nextId := by
    show s.nextConnId_ + 1 = Int32.ofNat ((s.conns ++ [_]).length + 1)
    rw [h.nextId, List.length_append, List.length_singleton, Int32.ofNat_add (s.conns.length + 1) 1]
    rfl
  names c C hc := by
    rcases getElem?_concat_cases hc with hc | ⟨rfl, rfl⟩
    · exact h.names c C hc
    · exact h.connName
  entries n c hc := by
    have hc' : Function.update s.connections_ s.connName (some s.conns.length) n = some c := hc
    by_cases hn : n = s.connName
    · rw [hn, Function.update_self, Option.some.injEq] at hc'
      subst hc'
      exact ⟨_, List.getElem?_concat_length .., hn.symm⟩
    · rw [Function.update_of_ne hn] at hc'
      obtain ⟨C, hC, hCn⟩ := h.entries n c hc'
      exact ⟨C, getElem?_concat_of_some hC, hCn⟩

theorem Named.step (h : Named name hostport s) (a : Action) : Named name hostport (s.step a) := by
  rcases keeping_step s a with hk | ⟨fd, s₁, -, hk₁, -, hk₂⟩
  · exact h.keep hk
  · exact ((h.keep hk₁).added fd).keep hk₂

theorem start_named (name hostport : String) (numThreads : Nat) (baseWakeup : Bool) :
    Named name hostport (start name hostport numThreads baseWakeup) where
  hostport_eq := rfl
  name_eq := rfl
  nextId := rfl
  names c C hc := by cases hc
  entries n c hc := by cases hc

theorem length_le_step (s : TcpServer) (a : Action) : s.conns.length ≤ (s.step a).conns.length := by
  rcases keeping_step s a with hk | ⟨fd, s₁, -, hk₁, -, hk₂⟩
  · rw [hk.length]
  · rw [hk₂.length, ← hk₁.length]
    simp [TcpServer.added]

theorem length_lt_step {a : Action} {fd : Fd} (ha : s.Accepts a fd) : s.conns.length < (s.step a).conns.length := by
  obtain ⟨rfl, active, hph⟩ := ha
  have hs : s.step (.accept (some fd)) = (s.setLoop 0 { s.loops 0 with phase := .handling [] active }).newConnection fd := by
    simp only [step, hph]
  rw [hs, (keeping_frame.newConnection _ fd).length]
  simp [TcpServer.added, setLoop]

/-- An entry of `connections_` is replaced by the entry of another connection. -/
def Replaces (s : TcpServer) (a : Action) : Prop :=
  ∃ n c d, s.connections_ n = some c ∧ (s.step a).connections_ n = some d ∧ c ≠ d

/-- What the kernel and the program do, whatever the names are. -/
def Peaceful (s : TcpServer) : Action → Prop
  | .accept (some fd) => ∀ C ∈ s.conns, .connectDestroyed ∉ C.history → C.conn.channel_.fd_ ≠ fd
  | a => s.Allowed a

instance (s : TcpServer) : ∀ a : Action, Decidable (s.Peaceful a)
  | .accept (some _) => inferInstanceAs (Decidable (∀ _ ∈ _, _))
  | .accept none => inferInstanceAs (Decidable (s.Allowed (.accept none)))
  | .epollWait l ready => inferInstanceAs (Decidable (s.Allowed (.epollWait l ready)))
  | .send caller c data len result => inferInstanceAs (Decidable (s.Allowed (.send caller c data len result)))
  | .nextChannel _ | .callback .. | .doPendingFunctors _ | .functor _ | .shutdown .. => inferInstanceAs (Decidable True)

/-- The first `N` names are different. -/
theorem Named.fresh {N : Nat} (h : Named name hostport s) (hl : hostport.length ≤ 21) (hN : N < 2 ^ 31)
    (hk : N < 10 ^ (29 - hostport.length)) (hlen : s.conns.length < N) (hc : s.conns[c]? = some C) :
    C.name_ ≠ s.connName := by
  have hlt := (List.getElem?_eq_some_iff.mp hc).1
  intro he
  have hn : connNameOf name hostport (Int32.ofNat (c + 1)) = connNameOf name hostport (Int32.ofNat (s.conns.length + 1)) := by
    rw [← h.names c C hc, he, h.connName]
  rw [connNameOf_eq_iff hl (by omega) (by omega)] at hn
  have := (kept_injective_iff (by omega)).mpr hk c s.conns.length (by omega) hlen hn
  omega

/-- A new connection does not take the place of another one. -/
theorem Named.not_replaces {N : Nat} (h : Named name hostport s) (hl : hostport.length ≤ 21) (hN : N < 2 ^ 31)
    (hk : N < 10 ^ (29 - hostport.length)) {a : Action} (hlen : (s.step a).conns.length ≤ N) : ¬ s.Replaces a := by
  rintro ⟨n, c, d, hc, hd, hne⟩
  rcases keeping_step s a with hs | ⟨fd, s₁, -, hk₁, hconns, hk₂⟩
  · have hd' := hs.entries n d hd
    rw [hc, Option.some.injEq] at hd'
    exact hne hd'
  · have hd₁ : Function.update s₁.connections_ s₁.connName (some s₁.conns.length) n = some d := hk₂.entries n d hd
    have hlen₁ : s.conns.length < N := by
      rw [hk₂.length] at hlen
      simp only [TcpServer.added, List.length_append, List.length_singleton, hconns] at hlen
      omega
    by_cases hn : n = s₁.connName
    · obtain ⟨C, hC, hCn⟩ := h.entries n c hc
      refine h.fresh hl hN hk hlen₁ hC ?_
      rw [hCn, hn, (h.keep hk₁).connName, h.connName, hk₁.length]
    · rw [Function.update_of_ne hn] at hd₁
      have hd' := hk₁.entries n d hd₁
      rw [hc, Option.some.injEq] at hd'
      exact hne hd'

/-- The names do not come again where the base loop does not accept. -/
theorem Inv.peaceful {a : Action} (h : s.Inv []) (hp : s.Peaceful a)
    (hn : ∀ fd, s.Accepts a fd → ∀ C ∈ s.conns, C.name_ ≠ s.connName) : (s.step a).Inv [] := by
  cases a with
  | accept connfd =>
    cases connfd with
    | none => exact step_inv h trivial
    | some fd =>
      by_cases ha : s.Accepts (.accept (some fd)) fd
      · exact step_inv h ⟨hn fd ha, hp⟩
      · have hs : s.step (.accept (some fd)) = s := by
          simp only [step]
          split
          · rename_i active hph
            exact absurd ⟨rfl, active, hph⟩ ha
          · rfl
        rw [hs]
        exact h
  | epollWait l ready => exact step_inv h hp
  | send caller c data len result => exact step_inv h hp
  | nextChannel _ | callback _ _ _ | doPendingFunctors _ | functor _ | shutdown _ _ => exact step_inv h trivial

/-- `removeConnectionInLoop` has found the connection's own entry. -/
theorem Inv.entry_own (h : s.Inv []) (hc : s.conns[c]? = some C) {entry : Option Nat}
    (hm : .removeConnectionInLoop entry ∈ C.history) : entry = some c := by
  obtain ⟨k, hn⟩ := (h.conn c C hc).notes
  have hl : .removeConnectionInLoop entry ∈ C.stage.notes c k := by
    rw [← hn, ServerConn.lifecycle, List.mem_filter]
    exact ⟨hm, rfl⟩
  cases hs : C.stage <;> rw [hs] at hl <;> simp [Stage.notes, Stage.opening, Stage.closing] at hl <;> exact hl

/-- In every run with connections numbered up to 2³¹ - 1: two of them have the
same name exactly if their numbers begin with the same digits, as many as there
is room for; and all have different names exactly if no number has more digits.
Then `newConnection` replaces no entry, and, unless the kernel or the program
does what it must not, `removeConnectionInLoop` finds the connection's own one. -/
theorem names_iff (name : String) (addr : InetAddress) (numThreads : Nat) (baseWakeup : Bool) (actions : List Action)
    (hN : (machine.final (start name addr.toIpPort numThreads baseWakeup) actions).conns.length < 2 ^ 31) :
    let s₀ := start name addr.toIpPort numThreads baseWakeup
    let s := machine.final s₀ actions
    let k := 29 - addr.toIpPort.length
    (∀ (c d : Nat) (C D : ServerConn), s.conns[c]? = some C → s.conns[d]? = some D →
      (C.name_ = D.name_ ↔ kept k (c + 1) = kept k (d + 1))) ∧
    ((∀ (c d : Nat) (C D : ServerConn), s.conns[c]? = some C → s.conns[d]? = some D → C.name_ = D.name_ → c = d) ↔
      s.conns.length < 10 ^ k) ∧
    (s.conns.length < 10 ^ k →
      machine.Along (fun s a => ¬ s.Replaces a) s₀ actions ∧
      (machine.Along Peaceful s₀ actions → ∀ (c : Nat) (C : ServerConn) (entry : Option Nat), s.conns[c]? = some C →
        .removeConnectionInLoop entry ∈ C.history → entry = some c)) := by
  intro s₀ s k
  have hl := length_toIpPort addr
  have h₀ : Named name addr.toIpPort s₀ := start_named name addr.toIpPort numThreads baseWakeup
  have h : Named name addr.toIpPort s := Machine.always (fun _ a h => h.step a) actions s₀ h₀
  have hlen : s.conns.length < 2 ^ 31 := hN
  have hlt : ∀ (c : Nat) (C : ServerConn), s.conns[c]? = some C → c < s.conns.length := fun c C hc =>
    (List.getElem?_eq_some_iff.mp hc).1
  have hnames : ∀ (c d : Nat) (C D : ServerConn), s.conns[c]? = some C → s.conns[d]? = some D →
      (C.name_ = D.name_ ↔ kept k (c + 1) = kept k (d + 1)) := by
    intro c d C D hc hd
    have := hlt c C hc; have := hlt d D hd
    rw [h.names c C hc, h.names d D hd]
    exact connNameOf_eq_iff hl (by omega) (by omega)
  refine ⟨hnames, ?_, fun hk => ⟨?_, fun hp => ?_⟩⟩
  · rw [← kept_injective_iff (show 0 < k by omega)]
    constructor
    · intro hd a b ha hb hab
      have hca := List.getElem?_eq_getElem ha; have hcb := List.getElem?_eq_getElem hb
      exact hd a b _ _ hca hcb ((hnames a b _ _ hca hcb).mpr hab)
    · intro hd c d C D hc hd' hCD
      exact hd c d (hlt c C hc) (hlt d D hd') ((hnames c d C D hc hd').mp hCD)
  · refine Machine.Along.imp (I := Named name addr.toIpPort) (fun s a hs hle => ⟨?_, hs.step a⟩) actions s₀ h₀
      (Machine.Along.of_final_le length_le_step actions s₀ (Nat.le_refl _))
    exact hs.not_replaces hl hlen hk hle
  · have hI : Named name addr.toIpPort s ∧ s.Inv [] := by
      refine Machine.invariant (I := fun s => Named name addr.toIpPort s ∧ s.Inv []) ?_ actions s₀
        ⟨h₀, start_inv name addr.toIpPort numThreads baseWakeup⟩
        (hp.and (Machine.Along.of_final_le length_le_step actions s₀ (Nat.le_refl _)))
      intro s a hs hP
      refine ⟨hs.1.step a, hs.2.peaceful hP.1 fun fd ha C hC => ?_⟩
      obtain ⟨c, hc⟩ := List.mem_iff_getElem?.mp hC
      refine hs.1.fresh hl hlen hk (Nat.lt_of_lt_of_le ?_ hP.2) hc
      exact length_lt_step ha
    exact fun c C entry hc hm => hI.2.entry_own hc hm

/-- The two connections of `farewell` have different names, and the first was
removed under its own. -/
theorem names_iff_farewell :
    let s := machine.final (start "echo" (InetAddress.toIpPort ⟨⟨127, 0, 0, 1⟩, 2007⟩) 1 true) farewell
    ∀ (c : Nat) (C : ServerConn) (entry : Option Nat), s.conns[c]? = some C →
      .removeConnectionInLoop entry ∈ C.history → entry = some c := by
  have h := names_iff "echo" ⟨⟨127, 0, 0, 1⟩, 2007⟩ 1 true farewell (by decide +kernel)
  exact (h.2.2 (by decide +kernel)).2 (by decide +kernel)

/-- Behind an address of 21 characters there is room for eight digits. -/
theorem names_collide :
    let s := start "echo" (InetAddress.toIpPort ⟨⟨192, 168, 100, 100⟩, 50000⟩) 0 true
    s.hostport_ = "192.168.100.100:50000" ∧
      ({ s with nextConnId_ := 10000000 } : TcpServer).connName = ({ s with nextConnId_ := 100000000 } : TcpServer).connName := by
  intro s
  have hl : s.hostport_.length = 21 := by decide +kernel
  refine ⟨by decide +kernel, ?_⟩
  have hkept : kept 8 100000000 = kept 8 10000000 :=
    kept_mul_ten (n := 10000000) (by decide) (length_toDigits_pow (k := 8) (by decide))
  have hname : connNameOf "echo" s.hostport_ (Int32.ofNat 10000000) =
      connNameOf "echo" s.hostport_ (Int32.ofNat 100000000) := by
    refine (connNameOf_eq_iff (Nat.le_of_eq hl) (by decide) (by decide)).mpr ?_
    rw [hl]
    exact hkept.symm
  exact hname

end TcpServer

end Ydx
