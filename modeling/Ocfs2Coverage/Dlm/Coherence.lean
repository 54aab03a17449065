import Ocfs2Coverage.Dlm.ValueBlock

/-!
Contract: what a client gets of the lock value block.

Owns: that asts and the steps of the owner keep the value block coherent, and that a client
gets with its lock what was given away last, behind every run.

Does not own: value blocks that are lost with a node.
-/

namespace Ocfs2Coverage.Dlm

open Ocfs2Coverage.Runs

variable {Lvb : Type} {owner n : Node} {s s' : Cluster Lvb} {c d : Cookie} {last last' : Lvb}
  {res t : DlmLockResource Lvb} {call : Call Lvb} {phase : Phase}

/-! ## Asts on their way -/

section Asts

variable {past : ProxyAst Lvb} {rest : Multiset (ProxyAst Lvb)}

/-- While a lock holds more than NL and takes nothing to the owner itself, the owner has the
value block that was given away last. -/
theorem Coherent.current (coherent : Coherent owner s last) (inv : Invariant owner s) {t : Mode}
    (held : t ∈ ((s.res owner).copy c).held) (some : t ≠ .nl)
    (quiet : ∀ call, (call, none) ∈ s.calls → call.cookie = c → ¬ call.Puts) :
    (s.res owner).lvb = last := by
  refine coherent.value fun call sent puts => ?_
  by_cases same : call.cookie = c
  · exact quiet call sent same puts
  · have top := (coherent.taken inv).1 call sent puts
    rcases inv.shared call.cookie c same _ top t held with ex | nl | ⟨ex, -⟩
    · cases ex
    · exact some nl
    · cases ex

/-- A lock with an ast open sent nothing that takes a value block to the owner. -/
theorem Conforms.quiet (conforms : Conforms owner s c phase) (inv : Invariant owner s)
    (none : phase.errands = 0) (sent : (call, Option.none) ∈ s.calls) (about : call.cookie = c) :
    ¬ call.Puts ∧ ∀ last' own there, call.Carries last' own there := by
  obtain ⟨-, node, flags, lvb, actions, rfl, cancel⟩ :=
    conforms.onlyCancels le_rfl (conforms.errands.trans none) sent about
  obtain ⟨valblk, put⟩ := (inv.calls _ sent).2.2.2.1 cancel
  exact ⟨by simp [Call.Puts, put], fun last' own there => by simp [Call.Carries, valblk, put]⟩

/-- A lock of the owner's own is in no message. -/
theorem LvbSound.home (inv : Invariant owner s') (home : dlmGetLockCookieNode c = owner)
    (put : PutSound ((s'.res owner).copy c)) : LvbSound owner s' last c where
  put := put
  get away := absurd home away
  calls call sent about := by
    obtain ⟨remote, node, -⟩ := inv.calls _ sent
    rw [about, home] at node
    exact absurd node.symm remote
  asts past sent about := by
    obtain ⟨remote, node⟩ := inv.asts past sent
    rw [about, home] at node
    exact absurd node.symm remote

theorem Coherent.flushLocal (coherent : Coherent owner s last) (inv : Invariant owner s)
    (inv' : Invariant owner s') (result : dlmFlushAst (s.res owner) owner = some (none, res))
    (reses : s'.res = Function.update s.res owner res) (calls : s'.calls = s.calls)
    (asts : s'.asts = s.asts) : Coherent owner s' last := by
  obtain ⟨c, -, lvb, told, others, copy, open'⟩ := dlmFlushAst_spec result
  obtain ⟨node, -⟩ := inv.node_of_ast open'
  have home : dlmGetLockCookieNode c = owner := by
    by_contra away
    rw [if_neg (by rwa [node])] at told
    cases told
  refine coherent.step inv c (untouched_of owner reses others (fun _ sent => .inl (calls ▸ sent))
    fun _ sent => .inl (asts ▸ sent)) (.inl rfl) (.home inv' home fun _ put => ?_) fun silent => ?_
  · rw [reses, Function.update_self, copy] at put
    cases put
  · rw [reses, Function.update_self, lvb]
    exact coherent.value fun call sent => silent call (calls ▸ sent)

theorem Coherent.flush (coherent : Coherent owner s last) (inv : Invariant owner s)
    (result : dlmFlushAst (s.res owner) owner = some (some past, res))
    (reses : s'.res = Function.update s.res owner res) (calls : s'.calls = s.calls)
    (asts : s'.asts = past ::ₘ s.asts) : Coherent owner s' last := by
  obtain ⟨c, -, lvb, told, others, copy, open'⟩ := dlmFlushAst_spec result
  obtain ⟨node, granted⟩ := inv.node_of_ast open'
  have away : dlmGetLockCookieNode c ≠ owner := by
    intro home
    rw [if_pos (by rwa [node])] at told
    cases told
  rw [if_neg (by rwa [node])] at told
  cases told
  have here : (s'.res owner).copy c = res.copy c := by rw [reses, Function.update_self]
  have own : s'.own c = s.own c := own_of_owner reses away
  obtain ⟨phase, conforms⟩ := inv.remote c away
  have count := conforms.asts
  rw [Cluster.astCount] at count
  have silent : phase.errands = 0 ∧ ((s.res owner).copy c).lock.convertType = none ∧
      (∀ past ∈ s.asts, past.cookie ≠ c) := by
    have one : phase.asts ≤ 1 := by cases phase <;> simp [Phase.asts]
    have none : ∀ past ∈ s.asts, past.cookie ≠ c := Multiset.countP_eq_zero.1 (by omega)
    rcases phase.of_asts (by omega) with ⟨t, rfl⟩ | ⟨t, u, rfl⟩
    · obtain ⟨-, -, -, convert, -⟩ := place_eq_some.1 conforms.there
      exact ⟨rfl, convert, none⟩
    · obtain ⟨-, -, -, convert, -⟩ := place_eq_some.1 conforms.there
      exact ⟨rfl, convert, none⟩
  obtain ⟨errands, convert, noPast⟩ := silent
  refine coherent.step inv c (untouched_of owner reses others (fun _ sent => .inl (calls ▸ sent))
    fun past sent => ?_) (.inl rfl) ⟨fun _ put => ?_, fun _ _ get => ?_, fun call sent about => ?_,
    fun past sent about v taken => ?_⟩ fun silent => ?_
  · rw [asts] at sent
    rcases Multiset.mem_cons.1 sent with rfl | sent
    · exact .inr rfl
    · exact .inl sent
  · rw [here, copy] at put
    cases put
  · rw [here, copy] at get
    cases get
  · exact (conforms.quiet inv errands (calls ▸ sent) about).2 _ _ _
  · rw [asts] at sent
    rcases Multiset.mem_cons.1 sent with rfl | sent
    · simp only [Option.mem_def, Option.ite_none_right_eq_some, Option.some.injEq] at taken
      obtain ⟨get, rfl⟩ := taken
      have stands : ((s.res owner).copy c).queue ≠ none := by
        rw [DlmLockResource.queue_copy, granted]
        simp
      obtain ⟨-, some, asked⟩ := (coherent.sound c).get away stands get
      rw [convert, Option.getD_none] at some
      refine ⟨?_, ?_, own ▸ asked⟩
      · refine coherent.current inv
          (DlmLockResource.Copy.mem_held.2 ⟨.inl granted, rfl⟩) some fun call sent about => ?_
        exact (conforms.quiet inv errands sent about).1
      · rw [here, copy]
        exact some
    · exact absurd about (noPast past sent)
  · rw [reses, Function.update_self, lvb]
    exact coherent.value fun call sent => silent call (calls ▸ sent)

theorem Coherent.ast (coherent : Coherent owner s last) (inv : Invariant owner s)
    (sent : s.asts = past ::ₘ rest)
    (result : dlmProxyAstHandler (s.res past.node) owner past.node past.cookie past.lvb = some res)
    (reses : s'.res = Function.update s.res past.node res) (calls : s'.calls = s.calls)
    (asts : s'.asts = rest) : Coherent owner s' last := by
  obtain ⟨remote, node⟩ := inv.asts past (by rw [sent]; exact Multiset.mem_cons_self past rest)
  have away : dlmGetLockCookieNode past.cookie ≠ owner := by rwa [node]
  obtain ⟨phase, conforms, granted⟩ := inv.ast_phase sent
  obtain ⟨others, -⟩ := dlmProxyAstHandler_spec result
  have there : (s'.res owner).copy past.cookie = (s.res owner).copy past.cookie := by
    rw [reses, Function.update_of_ne remote.symm]
  have count := conforms.asts
  rw [Cluster.astCount, sent, pastCount_cons, if_pos rfl] at count
  have silent : phase.errands = 0 ∧ (s.res owner).queues.find past.cookie = some .granted ∧
      ((s.res owner).copy past.cookie).asts = 0 ∧ (∀ p ∈ rest, p.cookie ≠ past.cookie) := by
    have one : phase.asts ≤ 1 := by cases phase <;> simp [Phase.asts]
    have none : ∀ p ∈ rest, p.cookie ≠ past.cookie := Multiset.countP_eq_zero.1 (by omega)
    refine ⟨?_, ?_, by omega, none⟩
    · rcases granted with ⟨t, rfl⟩ | ⟨t, u, rfl⟩ <;> rfl
    · rcases granted with ⟨t, rfl⟩ | ⟨t, u, rfl⟩ <;> exact conforms.queue
  obtain ⟨errands, here, noAst, noPast⟩ := silent
  obtain ⟨noGet, noPut⟩ := (coherent.sound _).clear away here noAst
  refine coherent.step inv past.cookie (untouched_of past.node reses others
    (fun _ sent => .inl (calls ▸ sent)) fun p member => .inl ?_) (.inl rfl) ⟨fun _ put => ?_,
    fun _ _ get => ?_, fun call member about => ?_, fun p member about => ?_⟩ fun silent => ?_
  · rw [sent]
    exact Multiset.mem_cons_of_mem (asts ▸ member)
  · rw [there, noPut] at put
    cases put
  · rw [there, noGet] at get
    cases get
  · exact (conforms.quiet inv errands (calls ▸ member) about).2 _ _ _
  · exact absurd about (noPast p (asts ▸ member))
  · rw [reses, Function.update_of_ne remote.symm]
    exact coherent.value fun call sent => silent call (calls ▸ sent)

end Asts

/-! ## Steps of the owner alone -/

/-- A step that changes nothing about any lock. -/
theorem Coherent.same (coherent : Coherent owner s last) (n : Node)
    (reses : s'.res = Function.update s.res n res) (calls : s'.calls = s.calls)
    (asts : s'.asts = s.asts) (copies : ∀ d, res.copy d = (s.res n).copy d)
    (lvb : res.lvb = (s.res n).lvb) : Coherent owner s' last where
  sound c := by
    refine (coherent.sound c).untouched ⟨fun m => ?_, fun _ sent _ => calls ▸ sent,
      fun _ sent _ => asts ▸ sent⟩ (.inl rfl)
    rw [reses, Function.update_apply]
    split
    · next same =>
        rw [same]
        exact copies c
    · rfl
  value silent := by
    have value := coherent.value fun call sent => silent call (calls ▸ sent)
    rw [reses, Function.update_apply]
    split
    · next same =>
        rw [lvb, ← same]
        exact value
    · exact value

section Home

variable {flags flags' : LkmFlags} {mode type : Mode} {lvb : Lvb} {next : Nat}
  {new : DlmLockResource Lvb} {status : DlmStatus}

/-- A step of the owner on one of its own locks. -/
theorem Coherent.home (coherent : Coherent owner s last) (inv : Invariant owner s)
    (inv' : Invariant owner s') (home : dlmGetLockCookieNode c = owner)
    (reses : s'.res = Function.update s.res owner res) (calls : s'.calls = s.calls)
    (asts : s'.asts = s.asts) (others : ∀ d, d ≠ c → res.copy d = (s.res owner).copy d)
    (put : PutSound (res.copy c))
    (given : last' = last ∨ Mode.ex ∈ ((s.res owner).copy c).held)
    (value : (s.res owner).lvb = last → res.lvb = last') : Coherent owner s' last' := by
  refine coherent.step inv c (untouched_of owner reses others (fun _ sent => .inl (calls ▸ sent))
    fun _ sent => .inl (asts ▸ sent)) given (.home inv' home ?_) fun silent => ?_
  · rw [reses, Function.update_self]
    exact put
  · rw [reses, Function.update_self]
    exact value (coherent.value fun call sent => silent call (calls ▸ sent))

theorem Coherent.lockOwner [DlmLockCompatible] (coherent : Coherent owner s last)
    (inv : Invariant owner s) (inv' : Invariant owner s') (few : s.next owner + 1 < 2 ^ 56)
    (key : dlmGetNextCookie owner (s.next owner) = (c, next))
    (prepared : dlmNewLock (s.res owner) owner c mode flags lvb = (flags', new))
    (result : dlmlockMaster new c flags' = some (status, res))
    (reses : s'.res = Function.update s.res owner res) (calls : s'.calls = s.calls)
    (asts : s'.asts = s.asts) : Coherent owner s' last := by
  obtain ⟨node, -, -⟩ := dlmGetNextCookie_spec few key
  obtain ⟨others, same, get, copy, -⟩ := dlmNewLock_spec prepared
  obtain ⟨others', same', outcome⟩ := dlmlockMaster_spec result
  have noPut : (new.copy c).lock.putLvb = false := by rw [copy]; rfl
  refine coherent.home inv inv' node reses calls asts
    (fun d other => (others' d other).trans (others d other)) (fun _ put => ?_) (.inl rfl)
    fun value => same'.trans (same.trans value)
  cases outcome with
  | granted fits fresh granted =>
      rw [granted, noPut] at put
      cases put
  | queued stands queued =>
      rw [queued, noPut] at put
      cases put
  | refused noqueue unchanged =>
      rw [unchanged, noPut] at put
      cases put

/-- A copy of the owner's own that its client may use. -/
theorem LvbSound.usable (sound : LvbSound owner s last c)
    (usable : Usable (s.res owner) owner c) : ((s.res owner).lock c).putLvb = false := by
  obtain ⟨here, -, -, idle⟩ := usable
  by_contra put
  obtain ⟨-, open'⟩ := sound.put (by rw [DlmLockResource.queue_copy, here]; simp)
    (by simpa using put)
  have none : ((s.res owner).copy c).asts = 0 := List.count_eq_zero.2 idle
  omega

theorem Coherent.convertOwner [DlmLockCompatible] (coherent : Coherent owner s last)
    (inv : Invariant owner s) (inv' : Invariant owner s')
    (usable : Usable (s.res owner) owner c)
    (result : dlmconvertMaster (s.res owner) c flags type = some (status, res))
    (reses : s'.res = Function.update s.res owner res) (calls : s'.calls = s.calls)
    (asts : s'.asts = s.asts) :
    Coherent owner s' ((published ((s.res owner).lock c) flags).getD last) := by
  have noPut := (coherent.sound c).usable usable
  obtain ⟨here, node, staying, -⟩ := usable
  obtain ⟨others, outcome⟩ := dlmconvertMaster_spec result
  have home : dlmGetLockCookieNode c = owner := (inv.node_of_queue here).symm.trans node
  have notedPut : (noted (s.res owner) c flags type).putLvb = true ↔
      flags.valblk = true ∧ ((s.res owner).lock c).type = .ex := by
    rw [noted, noteValblk_eq]
    show (((s.res owner).lock c).putLvb ||
      flags.valblk && decide (((s.res owner).lock c).type = .ex)) = true ↔ _
    rw [noPut, Bool.false_or, Bool.and_eq_true_iff, decide_eq_true_iff]
  have low : ((s.res owner).lock c).type < type →
      ¬ (flags.valblk = true ∧ ((s.res owner).lock c).type = .ex) := by
    rintro upwards ⟨-, top⟩
    rw [top] at upwards
    exact absurd upwards (le_ex type).not_gt
  refine coherent.home inv inv' home reses calls asts others (fun _ put => ?_) ?_ fun value => ?_
  · cases outcome with
    | denied busy same =>
        rw [same] at put
        exact absurd put (by simp [noPut])
    | granted idle here' fresh fits lvb copy =>
        rw [copy]
        exact ⟨rfl, Nat.succ_pos _⟩
    | refused idle here' upwards noqueue lvb copy =>
        rw [copy] at put
        exact absurd (notedPut.1 put) (low upwards)
    | queued idle here' upwards lvb copy =>
        rw [copy] at put
        exact absurd (notedPut.1 put) (low upwards)
  · rw [published]
    split
    · next gives => exact .inr (DlmLockResource.Copy.mem_held.2 ⟨.inl here, gives.2⟩)
    · exact .inl rfl
  · cases outcome with
    | denied busy same =>
        have idle : ((s.res owner).lock c).convertType = none := by
          by_contra some
          obtain ⟨-, -, -, -, convert⟩ := (inv.home c home).of_queue here
          exact absurd (convert.2 some) (by decide)
        rcases busy with busy | elsewhere
        · exact absurd idle busy
        · exact absurd here elsewhere
    | granted idle here' fresh fits lvb copy =>
        rw [lvb, published]
        simp only [notedPut]
        split
        · rfl
        · exact value
    | refused idle here' upwards noqueue lvb copy =>
        rw [lvb, published, if_neg (low upwards)]
        exact value
    | queued idle here' upwards lvb copy =>
        rw [lvb, published, if_neg (low upwards)]
        exact value

theorem Coherent.unlockOwner (coherent : Coherent owner s last) (inv : Invariant owner s)
    (inv' : Invariant owner s') (mine : ((s.res owner).lock c).node = owner)
    (result : dlmunlockMaster (s.res owner) c
      (dlmunlockFlags ((s.res owner).lock c) flags) = some (status, res))
    (reses : s'.res = Function.update s.res owner
      (if status = .normal ∨ status = .cancelGrant then res.kick else res))
    (calls : s'.calls = s.calls) (asts : s'.asts = s.asts) :
    Coherent owner s' ((if status = .normal then published ((s.res owner).lock c)
      (dlmunlockFlags ((s.res owner).lock c) flags) else none).getD last) := by
  have cancels : (dlmunlockFlags ((s.res owner).lock c) flags).cancel = true →
      (dlmunlockFlags ((s.res owner).lock c) flags).valblk = false := by
    intro cancel
    have cancel : flags.cancel = true := cancel
    simp [dlmunlockFlags, cancel]
  have top : (dlmunlockFlags ((s.res owner).lock c) flags).valblk = true →
      ((s.res owner).lock c).type = .ex := by
    simp [dlmunlockFlags]
  obtain ⟨others, outcome⟩ := dlmunlockMaster_spec cancels result
  have kicked : ∀ d, (if status = .normal ∨ status = .cancelGrant then res.kick else res).copy d =
      res.copy d := by
    intro d
    split <;> rfl
  have kept : (if status = .normal ∨ status = .cancelGrant then res.kick else res).lvb = res.lvb := by
    split <;> rfl
  have nothing : status ≠ .normal ∨ (dlmunlockFlags ((s.res owner).lock c) flags).valblk = false →
      (if status = .normal then published ((s.res owner).lock c)
        (dlmunlockFlags ((s.res owner).lock c) flags) else none) = none := by
    rintro (error | plain)
    · rw [if_neg error]
    · split
      · rw [published, if_neg (by simp [plain])]
      · rfl
  have unchanged : res = s.res owner → status ≠ .normal → Coherent owner s'
      ((if status = .normal then published ((s.res owner).lock c)
        (dlmunlockFlags ((s.res owner).lock c) flags) else none).getD last) := by
    intro same error
    rw [nothing (.inl error)]
    exact coherent.same owner reses calls asts (fun d => by rw [kicked, same]) (by rw [kept, same])
  have changed : ∀ queue last', (s.res owner).queues.find c = some queue → PutSound (res.copy c) →
      (last' = last ∨ Mode.ex ∈ ((s.res owner).copy c).held) →
      ((s.res owner).lvb = last → res.lvb = last') → Coherent owner s' last' := by
    intro queue last' here put given value
    refine coherent.home inv inv' ((inv.node_of_queue here).symm.trans mine) reses calls asts
      (fun d other => by rw [kicked, others d other]) ?_ given fun current => ?_
    · rw [kicked]
      exact put
    · rw [kept]
      exact value current
  cases outcome with
  | busy unlock waits same => exact unchanged same (by decide)
  | denied unlock elsewhere same => exact unchanged same (by decide)
  | tooLate cancel here same => exact unchanged same (by decide)
  | unknown cancel nowhere same => exact unchanged same (by decide)
  | unlocked unlock idle here lvb copy =>
      refine changed _ _ here (fun some => absurd ?_ some) ?_ fun value => ?_
      · rw [copy]
      · rw [if_pos rfl, published]
        split
        · next gives => exact .inr (DlmLockResource.Copy.mem_held.2 ⟨.inl here, gives.2⟩)
        · exact .inl rfl
      · rw [lvb, if_pos rfl, published]
        split
        · next valblk => rw [if_pos ⟨valblk, top valblk⟩, Option.getD_some]
        · next plain =>
            rw [if_neg fun gives => plain gives.1]
            exact value
  | withdrawn cancel here lvb copy =>
      rw [nothing (.inr (cancels cancel))]
      refine changed _ _ here (fun some => absurd ?_ some) (.inl rfl) fun value => lvb.trans value
      rw [copy]
  | reverted cancel here lvb copy =>
      rw [nothing (.inr (cancels cancel))]
      refine changed _ _ here (fun _ put => ?_) (.inl rfl) fun value => lvb.trans value
      rw [copy] at put
      cases put

theorem Coherent.write (coherent : Coherent owner s last) (lvb : Lvb)
    (reses : s'.res = Function.update s.res n
      ((s.res n).modifyLock c fun lock => { lock with lvb := lvb }))
    (calls : s'.calls = s.calls) (asts : s'.asts = s.asts) : Coherent owner s' last := by
  have copies : ∀ m d, ∃ lvb, (s'.res m).copy d =
      { (s.res m).copy d with lock := { ((s.res m).copy d).lock with lvb := lvb } } := by
    intro m d
    rw [reses, Function.update_apply]
    split
    · next same =>
        rw [same, DlmLockResource.copy_modifyLock]
        split
        · next same' =>
            rw [same']
            exact ⟨lvb, rfl⟩
        · exact ⟨_, rfl⟩
    · exact ⟨_, rfl⟩
  refine ⟨fun d => ?_, fun silent => ?_⟩
  · obtain ⟨lvb', there⟩ := copies owner d
    obtain ⟨lvb'', own⟩ := copies (dlmGetLockCookieNode d) d
    have own : s'.own d = { s.own d with lock := { (s.own d).lock with lvb := lvb'' } } := own
    refine ⟨?_, fun away => ?_, fun call sent about => ?_, fun past sent about => ?_⟩
    · rw [there]
      exact (coherent.sound d).put
    · rw [there, own]
      exact (coherent.sound d).get away
    · rw [there, own]
      have carries := (coherent.sound d).calls call (calls ▸ sent) about
      cases call <;> exact carries
    · rw [there, own]
      exact (coherent.sound d).asts past (asts ▸ sent) about
  · have value := coherent.value fun call sent => silent call (calls ▸ sent)
    rw [reses, Function.update_apply]
    split
    · next same =>
        rw [← same]
        exact value
    · exact value

end Home

/-! ## The thread -/

section Runs

variable [DlmLockCompatible]

theorem Coherent.grant (coherent : Coherent owner s last) (inv : Invariant owner s)
    (inv' : Invariant owner s') (grant : Grant (s.res owner) t c)
    (reses : s'.res = Function.update s.res owner t) (calls : s'.calls = s.calls)
    (asts : s'.asts = s.asts) : Coherent owner s' last := by
  have here : (s'.res owner).copy c = t.copy c := by rw [reses, Function.update_self]
  have granted : (t.copy c).queue = some .granted ∧ 0 < (t.copy c).asts ∧
      (t.copy c).lock.getLvb = ((s.res owner).copy c).lock.getLvb ∧
      (t.copy c).lock.convertType.getD (t.copy c).lock.type =
        ((s.res owner).copy c).lock.convertType.getD ((s.res owner).copy c).lock.type ∧
      ((s.res owner).copy c).queue ≠ none := by
    rcases grant.served with ⟨mode, head, wants, -, copy⟩ | ⟨-, head, -, copy⟩
    · have wants : ((s.res owner).copy c).lock.convertType = some mode := wants
      have queue : ((s.res owner).copy c).queue = some .converting :=
        Queues.mem_converting.1 (List.mem_of_mem_head? head)
      rw [copy, wants, queue]
      exact ⟨rfl, Nat.succ_pos _, rfl, rfl, by simp⟩
    · have queue : ((s.res owner).copy c).queue = some .blocked :=
        Queues.mem_blocked.1 (List.mem_of_mem_head? head)
      rw [copy, queue]
      exact ⟨rfl, Nat.succ_pos _, rfl, rfl, by simp⟩
  obtain ⟨queue, open', get, wants, stands⟩ := granted
  have untouched := untouched_of (c := c) owner reses grant.others
    (fun _ sent => .inl (calls ▸ sent)) fun _ sent => .inl (asts ▸ sent)
  have value : (∀ call, (call, none) ∈ s'.calls → ¬ call.Puts) → (s'.res owner).lvb = last := by
    intro silent
    rw [reses, Function.update_self, grant.lvb]
    exact coherent.value fun call sent => silent call (calls ▸ sent)
  have put : PutSound ((s'.res owner).copy c) := by
    rw [here]
    exact fun _ _ => ⟨queue, open'⟩
  by_cases home : dlmGetLockCookieNode c = owner
  · exact coherent.step inv c untouched (.inl rfl) (.home inv' home put) value
  · obtain ⟨phase, conforms⟩ := inv.remote c home
    have waits : phase.asts = 0 ∧ phase.errands = 0 := by
      rcases grant.served with ⟨mode, head, -, -, -⟩ | ⟨-, head, -, -⟩
      · obtain ⟨t', u, rfl⟩ := conforms.of_converting
          (Queues.mem_converting.1 (List.mem_of_mem_head? head))
        exact ⟨rfl, rfl⟩
      · obtain ⟨t', rfl⟩ := conforms.of_blocked
          (Queues.mem_blocked.1 (List.mem_of_mem_head? head))
        exact ⟨rfl, rfl⟩
    have own : s'.own c = s.own c := own_of_owner reses home
    refine coherent.step inv c untouched (.inl rfl) ⟨put, fun _ _ set => ?_,
      fun call sent about => ?_, fun past sent about => ?_⟩ value
    · rw [here] at set ⊢
      rw [get] at set
      obtain ⟨-, some, asked⟩ := (coherent.sound c).get home stands set
      exact ⟨fun _ => open', wants ▸ some, own ▸ asked⟩
    · exact (conforms.quiet inv waits.2 (calls ▸ sent) about).2 _ _ _
    · exact absurd about ((conforms.noAst waits.1).2 past (asts ▸ sent))

theorem Coherent.shuffled {r : DlmLockResource Lvb} (shuffled : Shuffled r t)
    (coherent : Coherent owner s last) (inv : Invariant owner s) (before : s.res owner = r)
    (reses : s'.res = Function.update s.res owner t) (calls : s'.calls = s.calls)
    (asts : s'.asts = s.asts) : Coherent owner s' last := by
  induction shuffled generalizing s with
  | settled noted settled =>
      refine coherent.same owner reses calls asts (fun d => ?_) ?_
      · rw [before, noted.copy]
      · rw [before, noted.lvb]
  | @grant r t u c grant rest inductionHypothesis =>
      have inv' : Invariant owner (s.setRes owner t) :=
        inv.grant (before ▸ grant) rfl rfl rfl rfl
      have next : Coherent owner (s.setRes owner t) last :=
        coherent.grant inv inv' (before ▸ grant) rfl rfl rfl
      refine inductionHypothesis next inv' (Function.update_self ..) ?_ calls asts
      rw [reses, Cluster.setRes, Function.update_idem]

/-! ## Every run -/

variable [Inhabited Lvb]

theorem Coherent.preserved (coherent : Coherent owner s last) (inv : Invariant owner s)
    {event : Event Lvb} (step : Step owner s event s') :
    Coherent owner s' (event.gives.getD last) := by
  have inv' := inv.preserved step
  cases step with
  | lockOwner client few key prepared result =>
      exact coherent.lockOwner inv inv' few key prepared result rfl rfl rfl
  | lock remote client few key prepared result =>
      exact coherent.lock inv remote client few key prepared result rfl rfl rfl
  | convertOwner client usable result => exact coherent.convertOwner inv inv' usable result rfl rfl rfl
  | @convertIdle n _ _ _ _ _ remote result =>
      refine coherent.same n rfl rfl rfl (fun d => ?_) ?_
      · rw [dlmconvertRemote_inl result]
      · rw [dlmconvertRemote_inl result]
  | convert remote client usable result =>
      exact coherent.convert inv remote client usable result rfl rfl rfl
  | unlockOwner client mine result => exact coherent.unlockOwner inv inv' mine result rfl rfl rfl
  | @unlockIdle n _ _ _ _ remote result =>
      refine coherent.same n rfl rfl rfl (fun d => ?_) ?_
      · rw [dlmunlockRemote_inl result]
      · rw [dlmunlockRemote_inl result]
  | unlock remote client mine staying alone converts result =>
      exact coherent.unlock inv remote client staying result rfl rfl rfl
  | write usable top => exact coherent.write _ rfl rfl rfl
  | @handle call rest res status sent result =>
      cases call with
      | create node c type flags => exact coherent.handleCreate inv sent result rfl rfl rfl
      | convert node c type flags lvb => exact coherent.handleConvert inv sent result rfl rfl rfl
      | unlock node c flags lvb actions => exact coherent.handleUnlock inv sent result rfl rfl rfl
  | «return» answered result => exact coherent.return inv answered result rfl rfl rfl
  | @shuffle res asts result =>
      have shuffled : Coherent owner (s.setRes owner res) last :=
        coherent.shuffled (dlmShuffleLists_spec result) inv rfl rfl rfl rfl
      have here : (s.setRes owner res).res owner = res := Function.update_self ..
      have reses : (s.setRes owner { res with dirty := false }).res =
          Function.update (s.setRes owner res).res owner { res with dirty := false } :=
        (Function.update_idem ..).symm
      refine shuffled.same owner reses rfl rfl (fun d => ?_) ?_
      · rw [here]
        rfl
      · rw [here]
  | flushLocal asts first result => exact coherent.flushLocal inv inv' result rfl rfl rfl
  | flush asts result => exact coherent.flush inv result rfl rfl rfl
  | flushLocalBast basts first result | flushBast basts result =>
      obtain ⟨lvb, -, copies⟩ := copy_dlmFlushBast result
      exact coherent.same owner rfl rfl rfl copies lvb
  | turnBasts | turnQueues | bast =>
      exact coherent.same owner (Function.update_eq_self ..).symm rfl rfl (fun _ => rfl) rfl
  | ast sent result => exact coherent.ast inv sent result rfl rfl rfl

omit [DlmLockCompatible] [Inhabited Lvb] in
theorem Coherent.start (owner : Node) (lvb : Lvb) : Coherent owner (.start lvb) lvb where
  sound c := by
    refine ⟨fun stands => absurd rfl stands, fun _ stands => absurd rfl stands, ?_, ?_⟩
    · simp [Cluster.start]
    · simp [Cluster.start]
  value _ := rfl

theorem coherent_of_run {lvb : Lvb} {events : List (Event Lvb)}
    (run : Run (Step owner) (.start lvb) events s) :
    Invariant owner s ∧ Coherent owner s (latest Event.gives lvb events) := by
  refine run.history (fun events s => Invariant owner s ∧
    Coherent owner s (latest Event.gives lvb events)) ⟨.start owner lvb, .start owner lvb⟩ ?_
  rintro events s event t ⟨inv, coherent⟩ step
  rw [latest_snoc]
  exact ⟨inv.preserved step, coherent.preserved inv step⟩

/-- Behind every run, the value block that an ast takes to a client with a lock of more than
NL is the one that was given away last, and the client has it then. -/
theorem fetched_is_given_last {lvb fetched : Lvb} {events : List (Event Lvb)}
    (run : Run (Step owner) (.start lvb) (events ++ [.ast n c (some fetched)]) s')
    (some' : ((s'.res n).lock c).type ≠ .nl) :
    fetched = latest Event.gives lvb events ∧ ((s'.res n).lock c).lvb = fetched := by
  obtain ⟨s, run, step⟩ := run.last
  obtain ⟨inv, coherent⟩ := coherent_of_run run
  generalize taken : Event.ast n c (some fetched) = event at step
  cases step with
  | lockOwner | lock | convertOwner | convertIdle | convert | unlockOwner | unlockIdle | unlock
  | write | handle | «return» | shuffle | flush | turnBasts | flushLocalBast | flushBast
  | turnQueues | bast => cases taken
  | @flushLocal c' res asts first result =>
      obtain ⟨rfl, rfl, value⟩ := Event.ast.inj taken
      have here : (s.setRes n res).res n = res := Function.update_self ..
      rw [here] at some' ⊢
      obtain ⟨c', first', -, told, -, copy, open'⟩ := dlmFlushAst_spec result
      cases first.symm.trans first'
      obtain ⟨node, granted⟩ := inv.node_of_ast open'
      have home : dlmGetLockCookieNode c = n := by
        by_contra away
        rw [if_neg (by rwa [node])] at told
        cases told
      have get : ((s.res n).lock c).getLvb = true := by
        by_contra plain
        rw [if_neg plain] at value
        cases value
      have block : (res.lock c).lvb = (s.res n).lvb := by
        have lvb := congrArg (fun copy => copy.lock.lvb) copy
        simpa [get] using lvb
      have type : (res.lock c).type = ((s.res n).lock c).type := by
        have type := congrArg (fun copy => copy.lock.type) copy
        exact type
      rw [type] at some'
      rw [if_pos get, Option.some.injEq] at value
      refine ⟨?_, value.symm⟩
      rw [value, block]
      refine coherent.current inv (DlmLockResource.Copy.mem_held.2 ⟨.inl granted, rfl⟩) some'
        fun call sent about => ?_
      obtain ⟨remote, node', -⟩ := inv.calls _ sent
      rw [about, home] at node'
      exact absurd node'.symm remote
  | @ast past rest res sent result =>
      obtain ⟨rfl, rfl, value⟩ := Event.ast.inj taken
      have member : past ∈ s.asts := by
        rw [sent]
        exact Multiset.mem_cons_self past rest
      obtain ⟨last, -⟩ := (coherent.sound past.cookie).asts past member rfl fetched value.symm
      obtain ⟨-, copy⟩ := dlmProxyAstHandler_spec result
      obtain ⟨-, node⟩ := inv.asts past member
      obtain ⟨phase, conforms, granted⟩ := inv.ast_phase sent
      have here := conforms.here
      rw [Cluster.own, node] at here
      have waits : (s.res past.node).queues.find past.cookie = some .converting ∨
          (s.res past.node).queues.find past.cookie = some .blocked ∧
            ((s.res past.node).lock past.cookie).unlockPending = false := by
        rcases granted with ⟨t, rfl⟩ | ⟨t, u, rfl⟩
        · obtain ⟨queue, -, -, -, staying⟩ := place_eq_some.1 here
          exact .inr ⟨queue, staying⟩
        · obtain ⟨queue, -⟩ := place_eq_some.1 here
          exact .inl queue
      obtain ⟨-, copy⟩ := copy waits
      refine ⟨last, ?_⟩
      have lvb := congrArg (fun copy => copy.lock.lvb) copy
      rw [← value] at lvb
      have there : (s.setRes past.node res).res past.node = res := Function.update_self ..
      rw [show ({ s.setRes past.node res with asts := rest } : Cluster Lvb).res past.node = res
        from there]
      exact lvb

end Runs

def valblk : LkmFlags := ⟨false, true, false, false, false⟩

/-- A client of node 1 writes 9, converts to NL, and one of the owner reads. -/
theorem readerAfterWriter : ∃ events s, Run (@Step Nat modesCompatible _ 0) (.start 7)
    (events ++ [.ast 0 1 (some 9)]) s ∧ ((s.res 0).lock 1).type = .pr := by
  let compatible := modesCompatible
  have start : Run (@Step Nat modesCompatible _ 0) (.start 7) [] _ := .nil
  have asked := start.snoc (.lock (by decide) ⟨rfl, rfl⟩ (by decide) rfl
    (show dlmNewLock _ 1 _ .ex valblk 0 = (_, _) from rfl) rfl)
  have handled := asked.snoc
    (.handle (show _ = (Call.create 1 (2 ^ 56 + 1) .ex ⟨false, true, true, false, false⟩, none) ::ₘ 0
      from rfl) rfl)
  have flushed := handled.snoc (.flush rfl rfl)
  have granted := flushed.snoc
    (.ast (show _ = (⟨1, 2 ^ 56 + 1, some 7⟩ : ProxyAst Nat) ::ₘ 0 from rfl) rfl)
  have written := granted.snoc (show Step 0 _ (.write 1 (2 ^ 56 + 1)) (Cluster.setRes _ 1
    (DlmLockResource.modifyLock _ (2 ^ 56 + 1) fun lock => { lock with lvb := 9 }))
      from .write ⟨rfl, rfl, rfl, by decide⟩ rfl)
  have converted := written.snoc (.convert (n := 1) (c := 2 ^ 56 + 1) (by decide) ⟨rfl, rfl⟩
    ⟨rfl, rfl, rfl, by decide⟩ (show dlmconvertRemote _ _ valblk .nl = (.inr _, _) from rfl))
  have given := converted.snoc (.handle (show _ = ((Call.convert 1 (2 ^ 56 + 1) .nl
    ⟨false, true, false, true, false⟩ 9 : Call Nat), none) ::ₘ (Call.create 1 (2 ^ 56 + 1) .ex
      ⟨false, true, true, false, false⟩, some .normal) ::ₘ 0 from rfl) rfl)
  have flushed' := given.snoc (.flush rfl rfl)
  have locked := flushed'.snoc (.lockOwner ⟨rfl, rfl⟩ (by decide) rfl
    (show dlmNewLock _ _ _ .pr valblk 0 = (_, _) from rfl) rfl)
  have granted' := locked.snoc (.flushLocal (c := 1) rfl rfl rfl)
  exact ⟨_, _, granted', by decide +kernel⟩

theorem fetched_is_given_last_reader : ∃ events, ∃ s : Cluster Nat,
    9 = latest Event.gives 7 events ∧ ((s.res 0).lock 1).lvb = 9 := by
  let compatible := modesCompatible
  obtain ⟨events, s, run, reads⟩ := readerAfterWriter
  exact ⟨events, s, fetched_is_given_last run (by rw [reads]; decide)⟩

end Ocfs2Coverage.Dlm
