import WhilePlus.Suite.Fetch

namespace WhilePlus

section Disk

variable {d d' : Disk} {e : Error} {path : String}

private theorem message_diskError (operation path : String) (trouble : Trouble) :
    (diskError operation path trouble).message =
      operation ++ " " ++ path ++ ": " ++ trouble.message := by
  cases trouble <;> exact String.empty_append

private theorem cause_diskError_ne_crash (operation path : String) (trouble : Trouble) (text : String) :
    (diskError operation path trouble).cause ≠ .crash text := by
  cases trouble <;> simp [diskError]

private theorem Disk.makeBelow_eq_error {rooted : Bool} {done names : List String}
    (h : d.makeBelow rooted done names = (d', .error e)) :
    ∃ path trouble, e = diskError "mkdir" path trouble := by
  induction names generalizing d done with
  | nil => cases h
  | cons first rest ih =>
    rw [makeBelow] at h
    split at h
    · exact ih h
    · cases h
      exact ⟨_, _, rfl⟩
    · split at h
      · exact ih h
      · cases h
        exact ⟨_, _, rfl⟩
    · cases h
      exact ⟨_, _, rfl⟩

private theorem Disk.makeDirectories_eq_error (h : d.makeDirectories path = (d', .error e)) :
    ∃ path trouble, e = diskError "mkdir" path trouble :=
  makeBelow_eq_error h

end Disk

namespace Suite

variable {cloner : Cloner} {cache : Option String} {st final : State} {d d' : Disk}
  {spec : SuiteSpec} {name base path : String} {e : Error}

/-- How the text of a failure begins, for each of the things that fetching a
    suite does. -/
def failureLeads : List String :=
  ["mkdir ", "git clone ", "resolve revision ", "checksum "]

/-- The error of something that fetching a suite does. -/
structure IsFailure (e : Error) : Prop where
  noCrash : ∀ text, e.cause ≠ .crash text
  led : ∃ lead ∈ failureLeads, ∃ rest, e.message = lead ++ rest

private theorem isFailure_ofText {lead : String} (hlead : lead ∈ failureLeads) (rest : String) :
    IsFailure (.ofText (lead ++ rest)) where
  noCrash := fun text h => by cases h
  led := ⟨lead, hlead, rest, String.empty_append⟩

private theorem isFailure_of_ensureCheckout (hrevision : revision? spec ≠ none)
    (h : ensureCheckout cloner d base spec = (d', .error e)) : IsFailure e := by
  rw [ensureCheckout] at h
  split at h
  · next hmade =>
    cases h
    obtain ⟨path, trouble, rfl⟩ := Disk.makeDirectories_eq_error hmade
    refine ⟨cause_diskError_ne_crash _ _ _, "mkdir ", by decide, path ++ (": " ++ trouble.message), ?_⟩
    rw [message_diskError]
    simp only [String.append_assoc]
    rfl
  · split at h
    · next hnone => exact absurd hnone hrevision
    · split at h
      · cases h
      split at h
      · cases h
        rw [String.append_assoc, String.append_assoc]
        exact isFailure_ofText (by decide) _
      · split at h
        · cases h
          rw [String.append_assoc, String.append_assoc]
          exact isFailure_ofText (by decide) _
        · dsimp only at h
          split at h <;> cases (Prod.mk.inj h).2

private theorem checksum_eq_error (h : checksum d path = .error e) :
    ∃ trouble, e = diskError "lstat" path trouble := by
  rw [checksum] at h
  split at h
  · cases h
    exact ⟨_, rfl⟩
  · cases h

/-- Without a cache nothing is fetched; otherwise an error names the suite, and
    then what failed. -/
theorem message_of_fetch_error (hgit : spec.isGit = true) (hrevision : revision? spec ≠ none)
    (h : fetch cloner cache st name (some spec) = (final, .error e)) :
    e.message = "suite: fetcher unavailable" ∨
      ∃ lead ∈ failureLeads, ∃ rest,
        e.message = "suite " ++ Text.quote name ++ ": " ++ (lead ++ rest) := by
  rw [fetch] at h
  dsimp only at h
  split at h
  · cases h
    exact .inl String.empty_append
  refine .inr ?_
  rw [if_neg (by simp [hgit])] at h
  split at h
  · next hensured =>
    cases h
    obtain ⟨hcrash, lead, hlead, rest, hmessage⟩ := isFailure_of_ensureCheckout hrevision hensured
    refine ⟨lead, hlead, rest, ?_⟩
    rw [Error.message_under hcrash, hmessage]
  · split at h
    · next hsum =>
      cases h
      obtain ⟨trouble, rfl⟩ := checksum_eq_error hsum
      rw [Error.message_under (cause_diskError_ne_crash _ _ _)]
      simp only [String.append_assoc]
      exact ⟨"checksum ", by decide, _, rfl⟩
    · cases h

/-- Nothing else is said of a suite that has an address and a pin: a text that
    starts like no failure of fetching is not the error of a fetch. -/
theorem message_ne_of_fetch_error (hgit : spec.isGit = true) (hrevision : revision? spec ≠ none)
    (h : fetch cloner cache st name (some spec) = (final, .error e)) {text : String}
    (htext : ∀ lead ∈ failureLeads, ¬ lead.toList <+: text.toList) :
    e.message ≠ "suite " ++ Text.quote name ++ ": " ++ text := by
  intro heq
  obtain hmessage | ⟨lead, hlead, rest, hmessage⟩ := message_of_fetch_error hgit hrevision h
  · have hstart : "suite ".toList <+: "suite: fetcher unavailable".toList := by
      rw [← hmessage, heq, String.append_assoc, String.append_assoc, String.toList_append]
      exact List.prefix_append _ _
    exact absurd hstart (by decide)
  · have hsame : lead ++ rest = text := String.append_right_inj _ |>.mp (hmessage.symm.trans heq)
    refine htext lead hlead ?_
    rw [← hsame, String.toList_append]
    exact List.prefix_append _ _

end Suite

end WhilePlus
