import EvansComputer.Dns.Registrar

/-!
# What an account can change

A call of the API sends one command about one domain, of which the call has checked that it is the
account's, or that comes to be.  But other fields of the form are put into the line as they are, and
the registry takes a newline in one of them for the end of the command.  Where no field has one, and
what is created and deleted is also published, an account changes its own domains only, and the
registrar and the registry agree on which there are.
-/

namespace EvansComputer.Dns

open Text

variable {dom dom' : Domain} {d : Name} {t h : List Char} {now : UInt64} {s : DomainService}

/-! ## What a command does -/

theorem registrar_addRecord {name ttl : List Char} {data : List (List Char)}
    (h : dom.addRecord d name ttl t data now = .ok dom') : dom'.registrar = dom.registrar := by
  unfold Domain.addRecord at h
  repeat' split at h
  all_goals first
    | cases h; rfl
    | cases h

theorem registrar_delRecord {name : List Char} {data : List (List Char)}
    (h : dom.delRecord d name t data now = .ok dom') : dom'.registrar = dom.registrar := by
  unfold Domain.delRecord at h
  split at h
  · cases h
  · cases h
  split at h
  · cases h
  dsimp only at h
  split at h
  · cases h
  · cases h
    rfl

theorem registrar_setNs {list : List (List Char)} (h : dom.setNs d list now = .ok dom') :
    dom'.registrar = dom.registrar := by
  unfold Domain.setNs at h
  split at h
  · cases h
  cases hns : list.mapM (nameServer d) with
  | error e =>
    rw [hns] at h
    cases h
  | ok ns =>
    rw [hns] at h
    cases h
    rfl

theorem registrar_update {w : List (List Char)} (h : dom.update d w now = .ok dom') :
    dom'.registrar = dom.registrar := by
  unfold Domain.update at h
  split at h
  · dsimp only at h
    split at h
    · split at h
      · exact registrar_addRecord h
      · cases h
    split at h
    · split at h
      · exact registrar_delRecord h
      · cases h
    split at h
    · cases h
      rfl
    split at h
    · exact registrar_setNs h
    · cases h
  · cases h

namespace Registry

theorem domainName_cases (r : Registry) (hd : IsCanonical d) :
    (∃ e, r.domainName d = .error e) ∨ r.domainName d = .ok d := by
  unfold domainName
  rw [normalize_of_isCanonical hd]
  dsimp only
  split
  · exact .inl ⟨_, rfl⟩
  · split
    · exact .inl ⟨_, rfl⟩
    · exact .inr rfl

/-- What a command of the registrar `me` about the domain `d` does, with the reply that it gets. -/
inductive Does (r : Registry) (me cmd : List Char) (d : Name) : Reply → Registry → Prop where
  | nothing (reply : Reply) (hchanged : reply.changed = false)
    (hcode : cmd = "CREATE".toList ∨ cmd = "DELETE".toList → reply.code.isSome = true) :
      Does r me cmd d reply r
  | create (hcmd : cmd = "CREATE".toList) (hfree : r.domains[d]? = none) (dom : Domain)
    (hme : dom.registrar = me) :
      Does r me cmd d ⟨none, true, false⟩ { r with domains := r.domains.insert d dom }
  | delete (hcmd : cmd = "DELETE".toList) (dom : Domain) (hdom : r.domains[d]? = some dom)
    (hme : dom.registrar = me) :
      Does r me cmd d ⟨none, true, false⟩ { r with domains := r.domains.erase d }
  | update (hcmd : cmd = "UPDATE".toList) (dom dom' : Domain) (hdom : r.domains[d]? = some dom)
    (hme : dom.registrar = me)
      (hme' : dom'.registrar = me) :
        Does r me cmd d ⟨none, true, false⟩ { r with domains := r.domains.insert d dom' }

theorem does_sponsored (r : Registry) (me cmd : List Char) (hd : IsCanonical d)
    (args : List (List Char)) (now : UInt64) :
    r.Does me cmd d (r.sponsored me cmd (d :: args) now).1
      (r.sponsored me cmd (d :: args) now).2 := by
  have hcases : (∃ e, r.argument (d :: args) = .error e) ∨ r.argument (d :: args) = .ok d :=
    r.domainName_cases hd
  unfold sponsored
  split
  · rename_i hcmd
    have hcode : ¬ (cmd = "CREATE".toList ∨ cmd = "DELETE".toList) := by
      rw [hcmd]
      decide
    rcases hcases with ⟨e, he⟩ | hok
    · rw [he]
      exact .nothing _ rfl fun h => absurd h hcode
    · rw [hok]
      exact .nothing _ rfl fun h => absurd h hcode
  split
  · rename_i hcmd
    rcases hcases with ⟨e, he⟩ | hok
    · rw [he]
      exact .nothing _ rfl fun _ => rfl
    · rw [hok, List.drop_one, List.tail_cons]
      cases args with
      | nil => exact .nothing _ rfl fun _ => rfl
      | cons registrant args =>
        dsimp only
        split
        · exact .nothing _ rfl fun _ => rfl
        · rename_i hfree
          refine .create hcmd ?_ _ rfl
          rwa [Std.ExtTreeMap.contains_eq_isSome_getElem?, Bool.not_eq_true,
            Option.isSome_eq_false_iff, Option.isNone_iff_eq_none] at hfree
  split
  · rename_i hcmd
    refine .nothing _ rfl fun h => ?_
    rw [hcmd] at h
    exact absurd h (by decide)
  split
  · rename_i hcmd
    have hcode : ¬ (cmd = "CREATE".toList ∨ cmd = "DELETE".toList) := by
      rw [hcmd]
      decide
    rcases hcases with ⟨e, he⟩ | hok
    · rw [he]
      exact .nothing _ rfl fun h => absurd h hcode
    · rw [hok]
      exact .nothing _ rfl fun h => absurd h hcode
  split
  · rename_i hcmd
    rcases hcases with ⟨e, he⟩ | hok
    · rw [he]
      exact .nothing _ rfl fun _ => rfl
    rw [hok]
    dsimp only
    split
    · exact .nothing _ rfl fun _ => rfl
    rename_i dom hdom
    split
    · exact .nothing _ rfl fun _ => rfl
    rename_i hme
    have hme := not_not.mp hme
    split
    · rename_i hdelete
      exact .delete hdelete dom hdom hme
    rename_i hdelete
    have hupdate := hcmd.resolve_left hdelete
    split
    · exact .nothing _ rfl fun _ => rfl
    · rename_i dom' hdom'
      exact .update hupdate dom dom' hdom hme ((registrar_update hdom').trans hme)
  · exact .nothing _ rfl fun _ => rfl

end Registry

/-! ## What is sent -/

theorem command_login (conf : RegistrarConf) (r : Registry) (now : UInt64) :
    r.command {} ("LOGIN ".toList ++ conf.id ++ ' ' :: conf.secret) now =
      if r.registrars[conf.id]? =
        some conf.secret then (⟨none, false, false⟩, r, { registrar := some conf.id })
      else (⟨some 2200, false, false⟩, r, {}) := by
  have hword : IsWord "LOGIN".toList := by decide
  have hsplit : "LOGIN ".toList ++ conf.id ++ ' ' :: conf.secret = "LOGIN".toList ++ ' ' ::
    (conf.id ++ ' ' :: conf.secret) := by
    rw [List.append_assoc]
    rfl
  unfold Registry.command
  rw [hsplit, words_word_space hword, words_word_space conf.isWord_id,
    words_word conf.isWord_secret]
  rfl

/-- A command that is one line changes nothing, or is the one command of this registrar. -/
theorem send_cases (conf : RegistrarConf) (r : Registry) {line cmd : List Char}
    {args : List (List Char)} (now : UInt64) (published : ℕ → Bool) (hline : '\n' ∉ line)
    (hwords : words line = cmd :: args) (hlogin : cmd.map Char.toUpper ≠ "LOGIN".toList)
    (hlogout : cmd.map Char.toUpper ≠ "LOGOUT".toList) :
    DomainService.send conf r line now published = (false, r) ∨
      DomainService.send conf r line now published =
        ((r.sponsored conf.id (cmd.map Char.toUpper) args now).1.code.isNone &&
          (!(r.sponsored conf.id (cmd.map Char.toUpper) args now).1.changed || published 0),
        (r.sponsored conf.id (cmd.map Char.toUpper) args now).2) := by
  have htrim : trim line ≠ [] := by
    intro hnil
    have hsame := words_trim line
    rw [hnil, hwords] at hsame
    cases hsame
  have hcommand : r.command { registrar := some conf.id } (trim line) now =
      ((r.sponsored conf.id (cmd.map Char.toUpper) args now).1,
        (r.sponsored conf.id (cmd.map Char.toUpper) args now).2,
        { registrar := some conf.id }) := by
    unfold Registry.command
    rw [words_trim, hwords]
    dsimp only
    rw [if_neg hlogin, if_neg hlogout]
  unfold DomainService.send
  rw [command_login]
  by_cases hsecret : r.registrars[conf.id]? = some conf.secret
  · refine .inr ?_
    rw [if_pos hsecret]
    dsimp only [Option.isSome_none]
    rw [if_neg Bool.false_ne_true, lines_command hline, Registry.serve, if_neg htrim, hcommand]
    dsimp only
    split
    · rfl
    · rfl
  · refine .inl ?_
    rw [if_neg hsecret]
    rfl

/-! ## What a call sends -/

/-- The fields of a form that go into a line as they are. -/
def Form.spliced (f : Form) : List (List Char) :=
  if f.field "op" = "set".toList then [f.field "name", f.field "ttl", f.field "type",
    f.field "data"]
  else if f.field "op" = "del".toList then [f.field "name", f.field "type", f.field "data"]
  else if f.field "op" = "ns".toList then [f.field "ns"]
  else []

/-- No field that goes into a line has a newline, and what is created or deleted is published. -/
def ApiCall.Clean (c : ApiCall) : Prop :=
  (∀ s ∈ c.form.spliced, '\n' ∉ s) ∧
    (c.form.field "op" = "register".toList ∨ c.form.field "op" = "delete".toList →
      c.published 0 = true)

namespace Accounts

variable {hash : PasswordHash} {tld : Name} {a : Accounts} {f : Form}

/-- The handles are those that an account may have. -/
def Handles (a : Accounts) : Prop :=
  ∀ h : List Char, a.accounts.contains h = true → checkHandle h = true

theorem Handles.create {a' : Accounts} {handle password salt : List Char} (h : a.Handles)
    (hcreate : a.create hash handle password salt now = some a') :
    a'.Handles ∧ a'.holds = a.holds := by
  unfold Accounts.create at hcreate
  split at hcreate
  · cases hcreate
  split at hcreate
  · cases hcreate
  split at hcreate
  · cases hcreate
  rename_i hcheck _ _
  cases hcreate
  refine ⟨fun k hk => ?_, rfl⟩
  rw [Std.ExtTreeMap.contains_eq_isSome_getElem?, OrderedMap.getElem?_insert'] at hk
  split at hk
  · rename_i heq
    rw [← heq]
    rwa [Bool.not_eq_true', Bool.not_eq_false] at hcheck
  · exact h k (by rwa [Std.ExtTreeMap.contains_eq_isSome_getElem?])

theorem newline_handle (hcheck : checkHandle h = true) : '\n' ∉ h := by
  intro hmem
  unfold checkHandle at hcheck
  rw [Bool.and_eq_true] at hcheck
  exact absurd (List.all_eq_true.mp hcheck.2 _ hmem) (by decide)

theorem Handles.auth (hhandles : a.Handles) (hauth : a.auth hash f = some h) :
    checkHandle h = true := by
  unfold Accounts.auth at hauth
  dsimp only at hauth
  split at hauth
  · cases hauth
  split at hauth
  · rename_i hcheck
    cases hauth
    refine hhandles _ ?_
    unfold Accounts.check at hcheck
    rw [Std.ExtTreeMap.contains_eq_isSome_getElem?]
    cases hacc : a.accounts[f.field "handle"]? with
    | none =>
      rw [hacc] at hcheck
      cases hcheck
    | some acc => rfl
  · cases hauth

theorem isCanonical_domain (h : domain tld f = some d) : IsCanonical d := by
  unfold domain at h
  dsimp only at h
  split at h
  · cases h
  obtain ⟨hnormalize, hsuffix⟩ := Option.filter_eq_some_iff.mp h
  refine isCanonical_normalize hnormalize ?_
  rintro rfl
  have hnil := List.isSuffixOf_iff_suffix.mp hsuffix
  exact absurd (List.suffix_nil.mp hnil) (List.cons_ne_nil _ _)

theorem mine_eq_some (hmine : a.mine hash tld f = some (h, d)) :
    a.auth hash f = some h ∧ IsCanonical d ∧ a.holds[d]? = some h := by
  unfold mine at hmine
  obtain ⟨h', hauth, hmine⟩ := Option.bind_eq_some_iff.mp hmine
  obtain ⟨d', hdomain, hmine⟩ := Option.bind_eq_some_iff.mp hmine
  split at hmine
  · rename_i hholds
    cases hmine
    exact ⟨hauth, isCanonical_domain hdomain, hholds⟩
  · cases hmine

/-- What a call may send about a domain, and what it leaves of the accounts if that succeeds. -/
inductive Sends (hash : PasswordHash) (a : Accounts) (f : Form) (d : Name) :
    List Char → Accounts → Prop where
  | ask (cmd : List Char) (hcmd : cmd = "CHECK".toList ∨ cmd = "INFO".toList) :
    Sends hash a f d cmd a
  | create (hop : f.field "op" = "register".toList) (h : List Char)
    (hauth : a.auth hash f = some h) :
      Sends hash a f d "CREATE".toList { a with holds := a.holds.insert d h }
  | update (h : List Char) (hauth : a.auth hash f = some h) (hholds : a.holds[d]? = some h) :
    Sends hash a f d "UPDATE".toList a
  | delete (hop : f.field "op" = "delete".toList) (h : List Char) (hauth : a.auth hash f = some h)
    (hholds : a.holds[d]? = some h) :
      Sends hash a f d "DELETE".toList { a with holds := a.holds.erase d }

theorem words_about {w : List Char} (hw : IsWord w) (hd : IsCanonical d) :
    words (w ++ ' ' :: d) = [w, d] := by
  rw [words_word_space hw, words_word hd.isWord]

theorem words_about_space {w : List Char} (hw : IsWord w) (hd : IsCanonical d) (s : List Char) :
    words (w ++ ' ' :: (d ++ ' ' :: s)) = w :: d :: words s := by
  rw [words_word_space hw, words_word_space hd.isWord]

theorem newline_word {w : List Char} (hw : IsWord w) : '\n' ∉ w :=
  fun hmem => absurd (hw.2 _ hmem) (by decide)

theorem newline_append {s : List Char} (hs : '\n' ∉ s) (ht : '\n' ∉ t) : '\n' ∉ s ++ t :=
  fun hmem => (List.mem_append.mp hmem).elim hs ht

theorem newline_space {s : List Char} (hs : '\n' ∉ s) (ht : '\n' ∉ t) : '\n' ∉ s ++ ' ' :: t :=
  newline_append hs fun hmem => (List.mem_cons.mp hmem).elim (fun h => absurd h (by decide)) ht

theorem newline_unwords {ws : List (List Char)} (h : ∀ w ∈ ws, '\n' ∉ w) : '\n' ∉ unwords ws := by
  induction ws with
  | nil => exact List.not_mem_nil
  | cons w ws ih =>
    have hw := h w List.mem_cons_self
    cases ws with
    | nil => exact hw
    | cons v ws => exact newline_space hw (ih fun u hu => h u (List.mem_cons_of_mem _ hu))

theorem newline_splitFrom {sep : Char → Bool} {acc s : List Char} (hacc : '\n' ∉ acc)
    (hs : '\n' ∉ s) :
    ∀ w ∈ splitFrom sep acc s, '\n' ∉ w := by
  induction s generalizing acc with
  | nil =>
    intro w hw
    rw [List.mem_singleton.mp hw]
    exact hacc
  | cons c s ih =>
    have hrest : '\n' ∉ s := fun hmem => hs (List.mem_cons_of_mem _ hmem)
    rw [splitFrom]
    split
    · intro w hw
      rcases List.mem_cons.mp hw with rfl | hw
      · exact hacc
      · exact ih List.not_mem_nil hrest w hw
    · refine ih (newline_append hacc fun hmem => hs ?_) hrest
      rw [List.mem_singleton.mp hmem]
      exact List.mem_cons_self

/-- The line is one command, about one domain. -/
def IsCommand (hash : PasswordHash) (a : Accounts) (f : Form) (line : List Char) (onOk : Accounts) :
    Prop :=
  '\n' ∉ line ∧ ∃ (cmd : List Char) (d : Name) (args : List (List Char)),
    words line = cmd :: d :: args ∧ IsCanonical d ∧
    Sends hash a f d cmd onOk

theorem isCommand_about {cmd : List Char} {onOk : Accounts} (hcmd : IsWord cmd) (hd : IsCanonical d)
    (hsends : Sends hash a f d cmd onOk) : IsCommand hash a f (cmd ++ ' ' :: d) onOk :=
  ⟨newline_space (newline_word hcmd) (newline_word hd.isWord), cmd, d, [],
    words_about hcmd hd, hd, hsends⟩

theorem isCommand_about_space {cmd s : List Char} {onOk : Accounts} (hcmd : IsWord cmd)
    (hd : IsCanonical d) (hs : '\n' ∉ s) (hsends : Sends hash a f d cmd onOk) :
    IsCommand hash a f (cmd ++ ' ' :: (d ++ ' ' :: s)) onOk :=
  ⟨newline_space (newline_word hcmd) (newline_space (newline_word hd.isWord) hs), cmd, d, words s,
    words_about_space hcmd hd s, hd, hsends⟩

/-- The lines of `set`, `del` and `ns`. -/
theorem isCommand_update {s : List Char} (hmine : a.mine hash tld f = some (h, d)) (hs : '\n' ∉ s) :
    IsCommand hash a f ("UPDATE ".toList ++ d ++ ' ' :: s) a := by
  obtain ⟨hauth, hd, hholds⟩ := mine_eq_some hmine
  have hline : "UPDATE ".toList ++ d ++ ' ' :: s = "UPDATE".toList ++ ' ' :: (d ++ ' ' :: s) := by
    rw [List.append_assoc]
    rfl
  rw [hline]
  exact isCommand_about_space (by decide) hd hs (.update h hauth hholds)

theorem IsCommand.trimEnd {line : List Char} {onOk : Accounts} (h : IsCommand hash a f line onOk) :
    IsCommand hash a f (trimEnd line) onOk :=
  ⟨fun hmem => h.1 (mem_trimEnd hmem), words_trimEnd line ▸ h.2⟩

/-- **A call that sends anything sends one command, about one domain.** -/
theorem sends_api {salt line : List Char} {onOk : Accounts} (hhandles : a.Handles)
    (hclean : ∀ s ∈ f.spliced, '\n' ∉ s) (h : a.api hash tld f salt now = .epp line onOk) :
    IsCommand hash a f line onOk := by
  have hname : '\n' ∉ f.field "name" → '\n' ∉ (f "name".toList).getD ['@'] := by
    unfold Form.field
    cases f "name".toList with
    | none => exact fun _ => by decide
    | some s => exact id
  unfold api at h
  dsimp only at h
  split at h
  · split at h
    · cases h
    · cases h
  split at h
  · cases h
  split at h
  · -- check
    split at h
    · rename_i d hd
      cases h
      exact isCommand_about (by decide) (isCanonical_domain hd) (.ask _ (.inl rfl))
    · cases h
  split at h
  · -- register
    rename_i hop
    split at h
    · rename_i h' d hauth hd
      split at h
      · cases h
      cases h
      have hline :
        "CREATE ".toList ++ d ++ ' ' :: h' = "CREATE".toList ++ ' ' :: (d ++ ' ' :: h') := by
        rw [List.append_assoc]
        rfl
      rw [hline]
      exact isCommand_about_space (by decide) (isCanonical_domain hd)
        (newline_handle (hhandles.auth hauth)) (.create hop h' hauth)
    · cases h
  split at h
  · -- set
    rename_i hop
    unfold Form.spliced at hclean
    rw [if_pos hop] at hclean
    split at h
    · cases h
    rename_i h' d hmine
    split at h
    · cases h
    cases h
    have httl :
      '\n' ∉ (if f.field "ttl" = [] then decimal defaultTtl.toNat else f.field "ttl") := by
      split
      · exact newline_word (isWord_decimal _)
      · exact hclean _ (by simp)
    refine isCommand_update hmine
      (newline_space (newline_append (by decide) (hname (hclean _ (by simp)))) ?_)
    exact newline_space httl (newline_space (hclean _ (by simp)) (hclean _ (by simp)))
  rename_i hset
  split at h
  · -- del
    rename_i hop
    unfold Form.spliced at hclean
    rw [if_neg hset, if_pos hop] at hclean
    split at h
    · cases h
    rename_i h' d hmine
    cases h
    refine (isCommand_update hmine
      (newline_space (newline_append (by decide) (hname (hclean _ (by simp)))) ?_)).trimEnd
    exact newline_space (hclean _ (by simp)) (hclean _ (by simp))
  rename_i hdel
  split at h
  · -- ns
    rename_i hop
    unfold Form.spliced at hclean
    rw [if_neg hset, if_neg hdel, if_pos hop] at hclean
    split at h
    · cases h
    rename_i h' d hmine
    split at h
    · cases h
      exact isCommand_update hmine (by decide)
    · cases h
      refine isCommand_update hmine (newline_append (by decide) (newline_unwords fun w hw => ?_))
      exact newline_splitFrom List.not_mem_nil (hclean _ (by simp)) w (List.mem_of_mem_filter hw)
  split at h
  · -- show
    split at h
    · cases h
    rename_i h' d hmine
    cases h
    exact isCommand_about (by decide) (mine_eq_some hmine).2.1 (.ask _ (.inr rfl))
  split at h
  · -- delete
    rename_i hop
    split at h
    · cases h
    rename_i h' d hmine
    obtain ⟨hauth, hd, hholds⟩ := mine_eq_some hmine
    cases h
    exact isCommand_about (by decide) hd (.delete hop h' hauth hholds)
  split at h
  · cases h
  · cases h

theorem done_api {salt : List Char} {ok : Bool} {a' : Accounts} (hhandles : a.Handles)
    (h : a.api hash tld f salt now = .done ok a') : a'.Handles ∧ a'.holds = a.holds := by
  unfold api at h
  dsimp only at h
  split at h
  · split at h
    · rename_i hcreate
      cases h
      exact hhandles.create hcreate
    · cases h
      exact ⟨hhandles, rfl⟩
  -- the others reply, or send
  repeat' split at h
  all_goals cases h
  all_goals exact ⟨hhandles, rfl⟩

end Accounts

/-! ## Runs -/

namespace DomainService

variable {hash : PasswordHash} {conf : RegistrarConf}

/-- The registrar and the registry agree on which domains there are under this registrar. -/
def Agree (conf : RegistrarConf) (s : DomainService) : Prop :=
  ∀ d : Name, s.accounts.holds.contains d = true ↔ ∃ dom, s.registry.domains[d]? = some dom ∧
    dom.registrar = conf.id

/-- What the service keeps. -/
structure Sound (conf : RegistrarConf) (s : DomainService) : Prop where
  agree : Agree conf s
  handles : s.accounts.Handles

/-- The registry changes in the domains of the account that makes the call, and in a domain that
it creates for it. -/
def Isolated (hash : PasswordHash) (s : DomainService) (c : ApiCall) (s' : DomainService) : Prop :=
  ∀ d : Name, s'.registry.domains[d]? = s.registry.domains[d]? ∨
    ∃ h : List Char, s.accounts.auth hash c.form = some h ∧
      (s.accounts.holds[d]? = some h ∨
        (s.registry.domains[d]? = none ∧ s'.accounts.holds[d]? = some h))

theorem contains_insert {α : Type*} {t : OrderedMap (List Char) α} {k a : List Char} {v : α} :
    (t.insert k v).contains a = true ↔ k = a ∨ t.contains a = true := by
  rw [Std.ExtTreeMap.contains_eq_isSome_getElem?, OrderedMap.getElem?_insert',
    Std.ExtTreeMap.contains_eq_isSome_getElem?]
  split <;> simp [*]

theorem contains_erase {α : Type*} {t : OrderedMap (List Char) α} {k a : List Char} :
    (t.erase k).contains a = true ↔ k ≠ a ∧ t.contains a = true := by
  rw [Std.ExtTreeMap.contains_eq_isSome_getElem?, OrderedMap.getElem?_erase',
    Std.ExtTreeMap.contains_eq_isSome_getElem?]
  split <;> simp [*]

theorem Agree.insert (hagree : Agree conf s) (hme : dom.registrar = conf.id) {a : Accounts}
    (hholds : ∀ k : Name, a.holds.contains k = true ↔ d = k ∨ s.accounts.holds.contains k = true) :
    Agree conf { accounts := a, registry :=
      { s.registry with domains := s.registry.domains.insert d dom } } := by
  intro k
  dsimp only
  rw [hholds k, hagree k, OrderedMap.getElem?_insert']
  by_cases hk : d = k
  · rw [if_pos hk]
    exact ⟨fun _ => ⟨dom, rfl, hme⟩, fun _ => .inl hk⟩
  · rw [if_neg hk]
    exact ⟨fun h => h.resolve_left hk, .inr⟩

theorem Agree.erase (hagree : Agree conf s) (d : Name) :
    Agree conf { accounts := { s.accounts with holds := s.accounts.holds.erase d },
                 registry := { s.registry with domains := s.registry.domains.erase d } } := by
  intro k
  dsimp only
  rw [contains_erase, hagree k, OrderedMap.getElem?_erase']
  by_cases hk : d = k
  · rw [if_pos hk]
    exact ⟨fun h => absurd hk h.1, fun ⟨_, h, _⟩ => nomatch h⟩
  · rw [if_neg hk]
    exact ⟨fun h => h.2, fun h => ⟨hk, h⟩⟩

/-- A change of one domain is isolated if it is the account's, or new. -/
theorem isolated_of_eq {s' : DomainService} {c : ApiCall}
    (hauth : s.accounts.auth hash c.form = some h)
    (hframe : ∀ k : Name, d ≠ k → s'.registry.domains[k]? = s.registry.domains[k]?)
    (hd : s.accounts.holds[d]? = some h ∨
      (s.registry.domains[d]? = none ∧ s'.accounts.holds[d]? = some h)) :
    Isolated hash s c s' := by
  intro k
  by_cases hk : d = k
  · exact .inr ⟨h, hauth, hk ▸ hd⟩
  · exact .inl (hframe k hk)

/-- What a command of a call comes to, when the registry has done it. -/
theorem sound_of_does (hsound : s.Sound conf) {c : ApiCall} (hclean : c.Clean) {cmd : List Char}
    {onOk : Accounts} (hsends : s.accounts.Sends hash c.form d cmd onOk) {reply : Reply}
    {r : Registry} (hdoes : s.registry.Does conf.id cmd d reply r) :
    Sound conf { accounts := if (reply.code.isNone && (!reply.changed || c.published 0)) =
      true then onOk else s.accounts, registry := r } ∧
      Isolated hash s c
        { accounts := if (reply.code.isNone && (!reply.changed || c.published 0)) = true then onOk
          else s.accounts, registry := r } := by
  cases hdoes with
  | nothing _ hchanged hcode =>
    refine ⟨?_, fun _ => .inl rfl⟩
    split
    · rename_i hok
      rw [Bool.and_eq_true] at hok
      have hnone : ¬ reply.code.isSome = true := by
        rw [Option.isNone_iff_eq_none.mp hok.1]
        decide
      cases hsends with
      | ask => exact hsound
      | update => exact hsound
      | create => exact absurd (hcode (.inl rfl)) hnone
      | delete => exact absurd (hcode (.inr rfl)) hnone
    · exact hsound
  | create hcmd hfree dom hme =>
    cases hsends with
    | ask cmd hask =>
      subst hcmd
      exact absurd hask (by decide)
    | update => exact absurd hcmd (by decide)
    | delete => exact absurd hcmd (by decide)
    | create hop h hauth =>
      rw [hclean.2 (.inl hop), if_pos (by rfl)]
      refine ⟨⟨hsound.agree.insert hme fun k => contains_insert, hsound.handles⟩,
        isolated_of_eq hauth (fun k hk => ?_) (.inr ⟨hfree, ?_⟩)⟩
      · rw [OrderedMap.getElem?_insert', if_neg hk]
      · exact Std.ExtTreeMap.getElem?_insert_self
  | delete hcmd dom hdom hme =>
    cases hsends with
    | ask cmd hask =>
      subst hcmd
      exact absurd hask (by decide)
    | update => exact absurd hcmd (by decide)
    | create => exact absurd hcmd (by decide)
    | delete hop h hauth hholds =>
      rw [hclean.2 (.inr hop), if_pos (by rfl)]
      refine ⟨⟨hsound.agree.erase d, hsound.handles⟩,
        isolated_of_eq hauth (fun k hk => ?_) (.inl hholds)⟩
      rw [OrderedMap.getElem?_erase', if_neg hk]
  | update hcmd dom dom' hdom hme hme' =>
    cases hsends with
    | ask cmd hask =>
      subst hcmd
      exact absurd hask (by decide)
    | create => exact absurd hcmd (by decide)
    | delete => exact absurd hcmd (by decide)
    | update h hauth hholds =>
      rw [ite_self]
      refine ⟨⟨hsound.agree.insert hme' fun k => ?_, hsound.handles⟩,
        isolated_of_eq hauth (fun k hk => ?_) (.inl hholds)⟩
      · have hcontains := (hsound.agree d).mpr ⟨dom, hdom, hme⟩
        exact ⟨.inr, fun hk => hk.elim (fun hk => hk ▸ hcontains) id⟩
      · rw [OrderedMap.getElem?_insert', if_neg hk]

/-- **A call keeps the two in agreement, and changes the domains of its own account only.** -/
theorem sound_call (hsound : s.Sound conf) {c : ApiCall} (hclean : c.Clean) :
    (s.call hash conf c).2.Sound conf ∧ Isolated hash s c (s.call hash conf c).2 := by
  unfold call
  split
  · rename_i ok accounts hapi
    obtain ⟨hhandles, hholds⟩ := Accounts.done_api hsound.handles hapi
    refine ⟨⟨?_, hhandles⟩, fun d => .inl rfl⟩
    intro d
    dsimp only
    rw [hholds]
    exact hsound.agree d
  · rename_i line onOk hapi
    obtain ⟨hline, cmd, d, args, hwords, hd, hsends⟩ :=
      Accounts.sends_api hsound.handles hclean.1 hapi
    have hupper : cmd.map Char.toUpper = cmd ∧ cmd ≠ "LOGIN".toList ∧ cmd ≠ "LOGOUT".toList := by
      cases hsends with
      | ask cmd hcmd =>
        rcases hcmd with rfl | rfl
        · decide
        · decide
      | create => decide
      | update => decide
      | delete => decide
    obtain ⟨hsame, hlogin, hlogout⟩ := hupper
    have hcases := send_cases conf s.registry c.now c.published hline hwords (hsame.symm ▸ hlogin)
      (hsame.symm ▸ hlogout)
    rw [hsame] at hcases
    rcases hcases with hnothing | hsent
    · rw [hnothing]
      exact ⟨hsound, fun _ => .inl rfl⟩
    · rw [hsent]
      exact sound_of_does hsound hclean hsends (s.registry.does_sponsored conf.id cmd hd args c.now)

theorem sound_run (hsound : s.Sound conf) {cs : List ApiCall} (hclean : ∀ c ∈ cs, c.Clean) :
    (s.run hash conf cs).Sound conf := by
  unfold run
  induction cs generalizing s with
  | nil => exact hsound
  | cons c cs ih =>
    rw [List.foldl_cons]
    exact ih (sound_call hsound (hclean c List.mem_cons_self)).1 fun c' hc' =>
      hclean c' (List.mem_cons_of_mem _ hc')

theorem sound_of_unsponsored {r : Registry}
    (h : ∀ (d : Name) (dom : Domain), r.domains[d]? = some dom → dom.registrar ≠ conf.id) :
    Sound conf { registry := r } := by
  refine ⟨fun d => ⟨fun hd => ?_, fun ⟨dom, hdom, hme⟩ => absurd hme (h d dom hdom)⟩,
    fun k hk => ?_⟩
  · rw [Std.ExtTreeMap.contains_empty] at hd
    cases hd
  · rw [Std.ExtTreeMap.contains_empty] at hk
    cases hk

/-- **Accounts are isolated.**  In every run of calls that put no newline into a line, and of
which the registry publishes what is created and deleted, a call changes only domains that are of
the account it has the password of, and domains that it creates; and the two agree on which there
are. -/
theorem accounts_isolated {s : DomainService} (hsound : s.Sound conf) {cs : List ApiCall}
    (hclean : ∀ c ∈ cs, c.Clean) {c : ApiCall} (hc : c.Clean) :
    Isolated hash (s.run hash conf cs) c ((s.run hash conf cs).call hash conf c).2 ∧
      Agree conf ((s.run hash conf cs).call hash conf c).2 := by
  have hrun : (s.run hash conf cs).Sound conf := sound_run hsound hclean
  obtain ⟨hafter, hisolated⟩ :
    (((s.run hash conf cs).call hash conf c).2.Sound conf ∧ Isolated hash _ c _) :=
    sound_call hrun hc
  exact ⟨hisolated, hafter.agree⟩

/-! ### One account that deletes the domain of another -/

/-- The hash of the salt and the password below. -/
def secretHash : PasswordHash :=
  fun _ _ => "43558a4238ccf48595c20820f8b73323c28b0684707d2f26de2c4f1a99b3c526".toList

def retail : RegistrarConf where
  id := "retail".toList
  secret := "hunter2".toList
  tld := "ecm".toList
  isWord_id := by decide
  isWord_secret := by decide

def formOf (fields : List (String × String)) : Form :=
  fun key => (fields.find? fun e => e.1.toList = key).map fun e => e.2.toList

def callOf (fields : List (String × String)) : ApiCall where
  form := formOf fields
  salt := "0123456789abcdef".toList
  now := 1700000000

/-- A registry with a registrar, and no domain. -/
def newRegistry : Registry where
  tld := "ecm".toList
  registrars := (∅ : OrderedMap (List Char) (List Char)).insert "retail".toList "hunter2".toList

/-- Two accounts, with a domain each. -/
def twoAccounts : List ApiCall :=
  [callOf [("op", "account"), ("handle", "alice"), ("password", "secret")],
    callOf [("op", "account"), ("handle", "bob"), ("password", "secret")],
    callOf [("op", "register"), ("handle", "alice"), ("password", "secret"),
      ("domain", "mine.ecm")],
    callOf [("op", "register"), ("handle", "bob"), ("password", "secret"), ("domain", "other.ecm")]]

/-- A record of the domain of one account, with a command about the domain of the other behind
it. -/
def twoLines : ApiCall :=
  callOf [("op", "set"), ("handle", "alice"), ("password", "secret"), ("domain", "mine.ecm"),
    ("name", "www"), ("type", "A"),
    ("data", "1.2.3.4\nDELETE other.ecm")]

theorem sound_newRegistry : Sound retail { registry := newRegistry } :=
  sound_of_unsponsored fun d dom hdom => by
    rw [show newRegistry.domains = ∅ from rfl, Std.ExtTreeMap.getElem?_empty] at hdom
    cases hdom

theorem clean_twoAccounts : ∀ c ∈ twoAccounts, c.Clean := by
  intro c hc
  simp only [twoAccounts, List.mem_cons, List.not_mem_nil, or_false] at hc
  rcases hc with rfl | rfl | rfl | rfl
  all_goals exact ⟨by decide +kernel, fun _ => rfl⟩

theorem accounts_isolated_once :
    Isolated secretHash (run secretHash retail { registry := newRegistry } twoAccounts)
        (callOf [("op", "delete"), ("handle", "bob"), ("password", "secret"),
          ("domain", "other.ecm")])
        (call secretHash retail (run secretHash retail { registry := newRegistry } twoAccounts)
          (callOf [("op", "delete"), ("handle", "bob"), ("password", "secret"),
            ("domain", "other.ecm")])).2 ∧
      Agree retail
        (call secretHash retail (run secretHash retail { registry := newRegistry } twoAccounts)
          (callOf [("op", "delete"), ("handle", "bob"), ("password", "secret"),
            ("domain", "other.ecm")])).2 :=
  accounts_isolated sound_newRegistry clean_twoAccounts ⟨by decide +kernel, fun _ => rfl⟩

/-- The call reports success, the domain of the other account is gone, and that account still
holds it. -/
theorem not_accounts_isolated :
    (call secretHash retail (run secretHash retail { registry := newRegistry } twoAccounts)
      twoLines).1 = true ∧
      ¬ Isolated secretHash (run secretHash retail { registry := newRegistry } twoAccounts) twoLines
        (call secretHash retail (run secretHash retail { registry := newRegistry } twoAccounts)
          twoLines).2 ∧
      ¬ Agree retail (call secretHash retail
        (run secretHash retail { registry := newRegistry } twoAccounts) twoLines).2 := by
  refine ⟨by decide +kernel, fun hisolated => ?_, fun hagree => ?_⟩
  · rcases hisolated "other.ecm".toList with hsame | ⟨h, hauth, hholds | ⟨hfree, -⟩⟩
    · have hbefore :
        ((run secretHash retail { registry := newRegistry }
        twoAccounts).registry.domains["other.ecm".toList]?).isSome = true := by
        decide +kernel
      rw [← hsame] at hbefore
      exact absurd hbefore (by decide +kernel)
    · have halice : (run secretHash retail { registry := newRegistry } twoAccounts).accounts.auth
        secretHash twoLines.form = some "alice".toList := by
        decide +kernel
      rw [Option.some.inj (hauth.symm.trans halice)] at hholds
      exact absurd hholds (by decide +kernel)
    · have hbefore :
        ((run secretHash retail { registry := newRegistry }
        twoAccounts).registry.domains["other.ecm".toList]?).isSome = true := by
        decide +kernel
      rw [hfree] at hbefore
      cases hbefore
  · obtain ⟨dom, hdom, -⟩ := (hagree "other.ecm".toList).mp (by decide +kernel)
    have hafter :
      ((call secretHash retail (run secretHash retail { registry := newRegistry } twoAccounts)
      twoLines).2.registry.domains["other.ecm".toList]?).isNone = true := by
      decide +kernel
    rw [hdom] at hafter
    cases hafter

end DomainService

end EvansComputer.Dns
