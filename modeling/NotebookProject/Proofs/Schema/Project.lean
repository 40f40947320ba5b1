import NotebookProject.Proofs.Schema.Block
import NotebookProject.Schema.Project

/-!
# Project files are lawful

The laws of the records of a project file, up to the file itself: what is read from a tree can be
written and read again, and the tree that is written is as sound as the one that was read.
-/

namespace NotebookProject.Schema

open Fields Codec

variable {h : Nat}

theorem lawful_fileMetadata : fileMetadata.Lawful (h + 1) := by
  have hfields := lawful_required (h := h) "createdAt" lawful_timestamp
    |>.and (lawful_optional "exportedAt" lawful_timestamp)
    |>.and (lawful_optional "modifiedAt" lawful_timestamp)
    |>.and (lawful_optional "checksum" lawful_string)
  exact hfields.openRecord (by decide) fun _ => rfl

theorem lawful_pythonEnvironment : pythonEnvironment.Lawful (h + 1) := by
  have hfields := lawful_optional (h := h) "environment" lawful_string
    |>.and (lawful_optional "version" lawful_string)
  exact hfields.openRecord (by decide) fun _ => rfl

theorem lawful_environment : environment.Lawful (h + 2) := by
  have hfields := lawful_optional (h := h + 1) "customImage" lawful_string
    |>.and (lawful_optional "hash" lawful_string)
    |>.and (lawful_optional "packages" lawful_string.dictionary)
    |>.and (lawful_optional "platform" lawful_string)
    |>.and (lawful_optional "python" lawful_pythonEnvironment)
  exact hfields.openRecord (by decide) fun _ => rfl

theorem lawful_executionSummary : executionSummary.Lawful (h + 1) := by
  have hfields := lawful_optional (h := h) "blocksExecuted" lawful_unsigned
    |>.and (lawful_optional "blocksSucceeded" lawful_unsigned)
    |>.and (lawful_optional "blocksFailed" lawful_unsigned)
    |>.and (lawful_optional "totalDurationMs" lawful_number)
  exact hfields.openRecord (by decide) fun _ => rfl

theorem lawful_executionError : executionError.Lawful (h + 2) := by
  have hfields := lawful_optional (h := h + 1) "name" lawful_string
    |>.and (lawful_optional "message" lawful_string)
    |>.and (lawful_optional "traceback" lawful_string.list)
  exact hfields.openRecord (by decide) fun _ => rfl

theorem lawful_execution : execution.Lawful (h + 3) := by
  have hfields := lawful_optional (h := h + 2) "startedAt" lawful_timestamp
    |>.and (lawful_optional "finishedAt" lawful_timestamp)
    |>.and (lawful_optional "triggeredBy" lawful_string)
    |>.and (lawful_optional "inputs" lawful_entries)
    |>.and (lawful_optional "summary" lawful_executionSummary)
    |>.and (lawful_optional "error" lawful_executionError)
  exact hfields.openRecord (by decide) fun _ => rfl

theorem lawful_integration : integration.Lawful (h + 1) := by
  have hfields := lawful_required (h := h) "id" lawful_string
    |>.and (lawful_required "name" lawful_string)
    |>.and (lawful_required "type" lawful_string)
  exact hfields.openRecord (by decide) fun _ => rfl

theorem lawful_projectSettings : projectSettings.Lawful (h + 2) := by
  have hfields := lawful_optional (h := h + 1) "requirements" lawful_string.list
    |>.and (lawful_optional "sqlCacheMaxAge" lawful_number)
  exact hfields.openRecord (by decide) fun _ => rfl

theorem lawful_notebook : notebook.Lawful (h + 6) := by
  have hfields := lawful_required (h := h + 5) "id" lawful_string
    |>.and (lawful_required "name" lawful_string)
    |>.and (lawful_required "blocks" lawful_block.list)
    |>.and (lawful_optional "executionMode"
      (lawful_choice [ExecutionMode.block, .downstream] ExecutionMode.name))
    |>.and (lawful_optional "isModule" lawful_bool)
    |>.and (lawful_optional "workingDirectory" lawful_string)
  exact (hfields.imap fun _ => rfl).record (by decide)

theorem lawful_project : project.Lawful (h + 8) := by
  have hfields := lawful_required (h := h + 7) "id" lawful_string
    |>.and (lawful_required "name" lawful_string)
    |>.and (lawful_required "notebooks" lawful_notebook.list)
    |>.and (lawful_optional "initNotebookId" lawful_string)
    |>.and (lawful_optional "integrations" lawful_integration.list)
    |>.and (lawful_optional "settings" lawful_projectSettings)
  exact (hfields.imap fun _ => rfl).record (by decide)

theorem lawful_projectFile : projectFile.Lawful (h + 9) := by
  have hfields := lawful_required (h := h + 8) "metadata" lawful_fileMetadata
    |>.and (lawful_optional "environment" lawful_environment)
    |>.and (lawful_optional "execution" lawful_execution)
    |>.and (lawful_required "project" lawful_project)
    |>.and (lawful_required "version" lawful_string)
  exact (hfields.imap fun _ => rfl).record (by decide)

end NotebookProject.Schema
