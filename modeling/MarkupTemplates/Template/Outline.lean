import MarkupTemplates.Template.Construction

namespace MarkupTemplates

def Printing.outline (p : Printing) (imported macros : List Text) : Text :=
  Outline.record "TemplateBase"
    [("null_value", p.nullText.quoted),
      ("true_value", p.trueText.quoted),
      ("false_value", p.falseText.quoted),
      ("output_encoding", Outline.optionalText p.outputEncoding),
      ("filter", Outline.flag p.filter.isSome),
      ("formatter", Outline.flag p.formatter.isSome),
      ("import_macros", Outline.texts imported),
      ("macros", Outline.texts macros)]

def TemplateClass.outline (c : TemplateClass) : Text :=
  Outline.record "TemplateClass"
    [("class_name", c.header.className.quoted),
      ("name", Outline.optionalText c.header.name),
      ("encoding", c.header.encoding.quoted),
      ("stream", Outline.flag c.header.stream),
      ("macros", Outline.texts (c.macros.map Prod.fst))]

def Template.outline (t : Template) : Text :=
  Outline.record "CompiledTemplate"
    [("class", t.ofClass.outline),
      ("base", t.printing.outline (Dictionary.keys t.imported) (Dictionary.keys t.macros))]

def TemplateArguments.outline (args : TemplateArguments) : Text :=
  Outline.record "TemplateArgs"
    [("filter", Outline.flag args.filter.isSome),
      ("formatter", Outline.flag args.formatter.isSome),
      ("functions", Outline.texts args.functions),
      ("import_macros", Outline.texts args.imported.keys)]

end MarkupTemplates
